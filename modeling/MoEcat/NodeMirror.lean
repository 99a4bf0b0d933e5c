import MoEcat.ImageLayout
import MoEcat.PeriodicChecks
import MoEcat.SlaveLists

/-!
# The nodes mirror the scanned slaves

Nodes are created when Maintenance is entered, configured when a run is prepared, used
by the cycles and by their owner, and given up by every shutdown. What each operation
does to the list of nodes is said once; from it follows what holds of every node, and,
with the lifecycle's account of the nodes and the numbering of the scanned slaves, which
nodes there are in each state.
-/

namespace MoEcat

variable {β : Type}

/-! ## What holds of every node -/

namespace SlaveNode

/-- A configured node as it should be: the type detected for its slave, a profile of
that type, and buffers of the sizes computed from its mapping. -/
structure Mirrors (node : SlaveNode) : Prop where
  configured : node.configured = true
  type : node.getConfig.type = SlaveTypeDetector.detect {} node.info
  profile : node.profile.map DeviceProfile.getType = some (SlaveTypeDetector.detect {} node.info)
  outputs : node.outputBuffer.length = computeOutputSize node.getConfig.mapping
  inputs : node.inputBuffer.length = computeInputSize node.getConfig.mapping

/-- Once configured, a node has its default configuration and the profile of its type. -/
def Conforms (node : SlaveNode) : Prop :=
  node.configured = true →
    node.IsDefault ∧
      node.profile.map DeviceProfile.getType = some (SlaveTypeDetector.detect {} node.info)

/-- The default configuration is of the detected type. -/
theorem type_defaultConfig (info : SlaveInfo) :
    (defaultConfig info).type = SlaveTypeDetector.detect {} info := by
  unfold defaultConfig
  cases SlaveTypeDetector.detect {} info <;> rfl

/-- A node that conforms mirrors its slave once it is configured. -/
theorem Conforms.mirrors {node : SlaveNode} (conforms : node.Conforms)
    (configured : node.configured = true) : node.Mirrors := by
  obtain ⟨default, profile⟩ := conforms configured
  have config : node.getConfig = defaultConfig node.info := by
    rw [getConfig, default.config]
    rfl
  refine ⟨configured, ?_, profile, ?_, ?_⟩
  · rw [config, type_defaultConfig]
  · rw [config]
    exact default.outputs
  · rw [config]
    exact default.inputs

/-- Configuring makes a node conform, or leaves it as it was. -/
theorem conforms_configureNode (node : SlaveNode) (conforms : node.Conforms) :
    (SlaveNodeManager.configureNode node).2.Conforms := by
  intro _
  refine ⟨isDefault_configureNode node fun done => (conforms done).1, ?_⟩
  unfold SlaveNodeManager.configureNode configure
  by_cases done : node.configured = true
  · simpa [done] using (conforms done).2
  · have created : ∀ config : SlaveConfig,
        (createDeviceProfile config.type config.axisConfig).getType = config.type := by
      intro config
      unfold createDeviceProfile
      cases config.type <;> rfl
    simp only [done, Bool.false_eq_true, if_false, Option.map_some]
    rw [created]
    exact congrArg some (type_defaultConfig node.info)

/-- Sending leaves a node that conforms. -/
theorem conforms_sent (node : SlaveNode) (conforms : node.Conforms) : node.sent.Conforms := by
  intro done
  refine ⟨isDefault_sent (fun configured => (conforms configured).1) done, ?_⟩
  rw [configured_sent] at done
  rw [info_sent, ← (conforms done).2, sent, if_pos done]

/-- Decoding never changes the type of a profile. -/
theorem getType_decodePdoInput (profile : DeviceProfile) (mapping : PdoMapping)
    (buffer : List UInt8) : (profile.decodePdoInput mapping buffer).getType = profile.getType := by
  cases profile <;> rfl

/-- Receiving leaves a node that conforms. -/
theorem conforms_received (ctx : EcContext) (node : SlaveNode) (conforms : node.Conforms) :
    (node.received ctx).Conforms := by
  intro done
  refine ⟨isDefault_received ctx (fun configured => (conforms configured).1) done, ?_⟩
  rw [configured_received] at done
  rw [info_received, ← (conforms done).2, received, if_pos done]
  simp only [decoded, Option.map_map, Function.comp_def, getType_decodePdoInput]

/-- Acting on the axis leaves a node that conforms. -/
theorem conforms_onServoAxis (act : ServoAxis → ServoAxis) (node : SlaveNode)
    (conforms : node.Conforms) : (node.onServoAxis act).Conforms := by
  intro done
  refine ⟨isDefault_onServoAxis act (fun configured => (conforms configured).1) done, ?_⟩
  rw [configured_onServoAxis] at done
  rw [info_onServoAxis, ← (conforms done).2, onServoAxis]
  cases axis : node.getServoAxis with
  | none => rfl
  | some axis' =>
    -- Only a node with a servo profile hands out an axis.
    obtain ⟨old, held⟩ : ∃ old, node.profile = some (.servo old) := by
      unfold getServoAxis at axis
      split at axis
      · exact ⟨_, by assumption⟩
      · cases axis
    rw [held]
    rfl

end SlaveNode

/-! ## What each operation does to the nodes -/

/-- The nodes are left alone, given up, created anew, configured, or used by a cycle. -/
inductive NodesEffect (c d : EcatController β) : Prop
  | kept (same : d.nodes = c.nodes)
  | cleared (none : d.nodes = [])
  | created (infos : List SlaveInfo) (fresh : d.nodes = infos.map fun info => { info := info })
  | configured (all : d.nodes = (SlaveNodeManager.configureAll c.nodes).2)
  | cycled (ctx : EcContext)
      (used : d.nodes = (c.nodes.map SlaveNode.sent).map (SlaveNode.received ctx))

/-- If all nodes conform they still do, whatever was done to them. -/
theorem NodesEffect.conforms {c d : EcatController β} (effect : NodesEffect c d)
    (conforming : ∀ node ∈ c.nodes, node.Conforms) : ∀ node ∈ d.nodes, node.Conforms := by
  cases effect with
  | kept same => rwa [same]
  | cleared none => simp [none]
  | created infos fresh =>
    rw [fresh, List.forall_mem_map]
    intro info _ done
    cases done
  | configured all =>
    rw [all, SlaveNodeManager.configureAll, List.forall_mem_map]
    exact fun node member => SlaveNode.conforms_configureNode node (conforming node member)
  | cycled ctx used =>
    rw [used, List.forall_mem_map, List.forall_mem_map]
    exact fun node member => SlaveNode.conforms_received ctx _
      (SlaveNode.conforms_sent node (conforming node member))

/-- An effect says nothing about the rest of the controller. -/
theorem NodesEffect.congr {c c' d d' : EcatController β} (effect : NodesEffect c d)
    (before : c'.nodes = c.nodes) (after : d'.nodes = d.nodes) : NodesEffect c' d' := by
  cases effect with
  | kept same => exact .kept (by rw [after, same, before])
  | cleared none => exact .cleared (by rw [after, none])
  | created infos fresh => exact .created infos (by rw [after, fresh])
  | configured all => exact .configured (by rw [after, all, before])
  | cycled ctx used => exact .cycled ctx (by rw [after, used, before])

namespace EcatController

variable [Platform β]

/-- Entering Fault keeps the nodes. -/
theorem enterFault_nodes (c : EcatController β) : (enterFault.after c).nodes = c.nodes := by
  obtain ⟨m, same, -⟩ := enterFault_after c
  rw [same]

/-- A shutdown gives up the nodes. -/
theorem doShutdown_nodes (c : EcatController β) : (doShutdown.after c).nodes = [] := by
  obtain ⟨m, marks, same, -⟩ := doShutdown_after c
  rw [same]

/-- Entering Maintenance creates the nodes, or gives them up where it fails. -/
theorem enterMaintenance_nodes (c : EcatController β) :
    NodesEffect c (enterMaintenance.after c) := by
  by_cases known : c.state = .scanned
  · rcases enterMaintenance_spec c known with ⟨-, -, same⟩ | ⟨-, -, same⟩
    · exact .created _ (by rw [same])
    · exact .cleared (by rw [same, doShutdown_nodes])
  · exact .kept (by simp [enterMaintenance, known])

/-- Preparing a run configures the nodes, whether it succeeds or fails. -/
theorem prepareRun_nodes (c : EcatController β) :
    (prepareRun.after c).nodes =
      if c.state = .maintenance then (SlaveNodeManager.configureAll c.nodes).2 else c.nodes := by
  by_cases maintained : c.state = .maintenance
  · rw [if_pos maintained]
    rcases prepareRun_spec c maintained with ⟨-, -, same⟩ | ⟨-, -, -, same⟩ | ⟨-, -, -, same⟩
    · rw [same, enterFault_nodes]
    · rw [same, enterFault_nodes]
    · rw [same]
  · rw [if_neg maintained]
    simp [prepareRun, maintained]

/-- The effect of each operation but the convenience one, which is a sequence of them. -/
theorem perform_nodes {operation : ControllerOperation} {action : MasterAction}
    (single : singleRequest operation = some action) (c : EcatController β) :
    NodesEffect c ((perform operation).after c) := by
  cases operation with
  | initializeController config => cases single
  | initializeAdapter config =>
    rcases initializeAdapter_spec config c with ⟨-, -, same⟩ | ⟨-, -, -, same⟩ | ⟨-, -, -, same⟩ <;>
      exact .kept (by rw [perform, same])
  | scan =>
    by_cases ready : c.state = .adapterReady
    · rcases scan_spec c ready with ⟨-, -, same⟩ | ⟨-, -, same⟩
      · exact .kept (by rw [perform, same])
      · exact .cleared (by rw [perform, same, doShutdown_nodes])
    · exact .kept (by simp [perform, scan, ready])
  | enterMaintenance => exact enterMaintenance_nodes c
  | prepareRun =>
    have nodes := prepareRun_nodes c
    split at nodes
    · exact .configured nodes
    · exact .kept nodes
  | startOperation =>
    by_cases ready : c.state = .readyToRun
    · rcases startOperation_spec c ready with ⟨-, -, same⟩ | ⟨-, -, same⟩
      · exact .kept (by rw [perform, same])
      · exact .kept (by rw [perform, same, enterFault_nodes])
    · exact .kept (by simp [perform, startOperation, ready])
  | backToMaintenance =>
    by_cases ready : c.state = .readyToRun ∨ c.state = .operational
    · rcases backToMaintenance_spec c ready with ⟨-, -, same⟩ | ⟨-, -, same⟩
      · exact .kept (by rw [perform, same])
      · exact .kept (by rw [perform, same, enterFault_nodes])
    · exact .kept (by simp_all [perform, backToMaintenance])
  | stop =>
    have performed : (perform .stop).after c = stop.after c := rfl
    by_cases vacant : c.state = .uninitialized
    · exact .kept (by simp [performed, stop, vacant])
    · have dispatched := dispatch_admitted .stop c ((allowed_stop _).mpr vacant)
      have same : stop.after c = doShutdown.after c := by
        simpa [stop, vacant, doAction] using dispatched.2
      exact .cleared (by rw [performed, same, doShutdown_nodes])
  | requestFault => exact .kept (enterFault_nodes c)
  | requestEmergencyStop =>
    obtain ⟨m, same, -⟩ := enterEmergencyStop_after c
    have performed : (perform .requestEmergencyStop).after c = enterEmergencyStop.after c := rfl
    exact .kept (by rw [performed, same])

end EcatController

namespace Impl

variable [Platform β]

/-- A supervision keeps the nodes, even where it enters Fault. -/
theorem superviseSlaves_nodes (c : EcatController β) :
    (ProcessDataEngine.superviseSlaves.after c).nodes = c.nodes := by
  cases supervised : supervisedState c.state with
  | none => cases held : c.state <;> simp_all [ProcessDataEngine.superviseSlaves, supervisedState]
  | some expected =>
    rw [ProcessDataEngine.superviseSlaves_supervised c supervised]
    obtain ⟨m, marks, -, same | same⟩ := ProcessDataEngine.supervise_after expected c
    · rw [same]
    · rw [same]

/-- A check leaves the nodes alone, a cycle uses them. -/
theorem served_nodes {c d : EcatController β} (served : Served c d) : NodesEffect c d := by
  have checked : ∀ {c : EcatController β}, Checked c d → d.nodes = c.nodes := by
    rintro c ⟨platform, rfl | rfl⟩
    · rfl
    · exact superviseSlaves_nodes _
  cases served with
  | idle quiet same => exact .kept (by rw [same])
  | maintained held check => exact .kept (checked check)
  | cycled operational check =>
    have used := congrArg EcatController.nodes (ProcessDataEngine.runOnce_spec c operational)
    exact .cycled _ ((checked check).trans used)

/-- Every operation of the master has one of these effects on the nodes. -/
theorem perform_nodes (i : Impl β) (settled : Settled i) (operation : MasterOperation) :
    NodesEffect i.controller ((perform operation).after i).controller := by
  cases requested : operation.request with
  | action action =>
    obtain ⟨inner, framed⟩ := MasterOperation.framed_request requested
    obtain ⟨platform, logger, same⟩ := prepared_after operation i
    have effect := EcatController.perform_nodes
      (MasterOperation.single_framed framed requested) (prepared operation i).controller
    rw [(perform_framed framed requested i).2, controller_transition]
    exact effect.congr (by rw [same]; rfl) rfl
  | service =>
    obtain rfl := MasterOperation.eq_service requested
    obtain ⟨delivered, same⟩ := service_after i
    rw [perform_service, same]
    exact served_nodes (serviceEngine_served i settled).1
  | access =>
    obtain ⟨m, same, -⟩ := perform_access requested i
    exact .kept (by rw [same])

end Impl

/-! ## Which nodes there are -/

namespace Lifecycle

/-- The states of a session in which a scan has succeeded. -/
def isListed : ControllerState → Bool
  | .scanned | .maintenance | .readyToRun | .operational => true
  | _ => false

/-- Without a scan and an entry into Maintenance these states follow each other only. -/
theorem Move.listed_kept {a b : State} {label : Label} (move : Move a label b)
    (scans : label.request ≠ .action .scanSlaves)
    (enters : label.request ≠ .action .enterMaintenance) :
    isListed b.state = true → isListed a.state = true := by
  cases move with
  | maintained held supervision =>
    cases supervision <;> simp [State.emit, State.enter, held, isListed]
  | cycled held supervision =>
    cases supervision <;> simp [State.emit, State.enter, held, isListed]
  | backed ready => rcases ready with held | held <;> simp [held, isListed]
  | _ => simp_all [State.emit, State.enter, State.shutDown, State.configureAll, isListed]

end Lifecycle

namespace EcatController

/-- From a successful scan on the scanned slaves are numbered from one, as many as the
bus master counts. -/
def Numbered (c : EcatController β) : Prop :=
  Lifecycle.isListed c.state = true →
    c.slaveInfos.map SlaveInfo.slaveId = List.range' 1 c.master.ctx.slavecount

/-- What every run keeps: the lifecycle's account of the nodes, the conformity of each
node, and the numbering of the slaves. -/
structure Mirrored (c : EcatController β) : Prop where
  resources : Lifecycle.Resources (abstraction c)
  conforming : ∀ node ∈ c.nodes, node.Conforms
  numbered : Numbered c

/-- Before Maintenance the lifecycle accounts for no nodes. -/
theorem nodes_early {c : EcatController β} (resources : Lifecycle.Resources (abstraction c))
    (early : c.state = .uninitialized ∨ c.state = .adapterReady ∨ c.state = .scanned) :
    c.nodes = [] := by
  have vacant : (abstraction c).nodes = [] := by
    rcases early with held | held | held <;>
      rw [Lifecycle.Resources, show (abstraction c).state = _ from held] at resources <;>
      exact resources.2
  exact List.map_eq_nil_iff.mp vacant

/-- From Maintenance on the nodes are those of the scanned slaves. -/
theorem nodes_infos {c : EcatController β} (resources : Lifecycle.Resources (abstraction c))
    (holds : c.state.holdsNodes = true) : c.nodes.map SlaveNode.info = c.slaveInfos := by
  have accounted : (abstraction c).nodes.map Prod.fst = (abstraction c).scanned := by
    cases held : c.state <;> simp only [held, ControllerState.holdsNodes, Bool.false_eq_true] at holds
    · rw [Lifecycle.Resources, show (abstraction c).state = _ from held] at resources
      exact resources.2
    all_goals
      rw [Lifecycle.Resources, show (abstraction c).state = _ from held] at resources
      exact resources.2.1
  simpa [abstraction, Function.comp_def] using accounted

/-- With the process image laid out the lifecycle has all nodes configured. -/
theorem nodes_configured {c : EcatController β} (resources : Lifecycle.Resources (abstraction c))
    (holds : c.state.holdsImage = true) : ∀ node ∈ c.nodes, node.configured = true := by
  have configured : ∀ node ∈ (abstraction c).nodes, node.2 = true := by
    cases held : c.state <;> simp only [held, ControllerState.holdsImage, Bool.false_eq_true] at holds
    all_goals
      rw [Lifecycle.Resources, show (abstraction c).state = _ from held] at resources
      exact resources.2.2
  intro node member
  exact configured _ (List.mem_map_of_mem member)

/-- A move that neither scans nor enters Maintenance keeps the numbering, if the bus master
counts as before. -/
theorem numbered_of_move {c d : EcatController β} {label : Lifecycle.Label}
    (move : Lifecycle.Move (abstraction c) label (abstraction d))
    (scans : label.request ≠ .action .scanSlaves)
    (enters : label.request ≠ .action .enterMaintenance)
    (count : d.master.ctx.slavecount = c.master.ctx.slavecount) (numbered : Numbered c) :
    Numbered d := by
  intro listed
  have infos : d.slaveInfos = c.slaveInfos := move.scanned_kept scans enters
  rw [infos, count]
  exact numbered (move.listed_kept scans enters listed)

variable [Platform β]

/-- What a scan finds is numbered, provided that it finds anything. -/
theorem scanSlaves_numbered (keeps : KeepsCount β) (m : EcMaster β)
    (found : EcMaster.scanSlaves.result m ≠ []) :
    (EcMaster.scanSlaves.result m).map SlaveInfo.slaveId =
      List.range' 1 (EcMaster.scanSlaves.after m).ctx.slavecount := by
  have answered : 0 < ((EcMaster.soem .configInit).result m).result := by
    have positive := List.length_pos_iff.mpr found
    rw [EcMaster.length_scanSlaves] at positive
    omega
  have count : ((EcMaster.soem .configInit).after m).ctx.slavecount =
      ((EcMaster.soem .configInit).result m).result.toNat :=
    keeps.found m.ctx m.platform answered
  have infos : EcMaster.scanSlaves.result m =
      refreshSlaveInfos ((EcMaster.soem .configInit).after m) := by
    rw [refreshSlaveInfos, EcMaster.getSlaveCount, count]
    simp only [EcMaster.scanSlaves, Program.result_bind, if_neg (Int.not_le.mpr answered)]
    rfl
  have same : (EcMaster.scanSlaves.after m).ctx.slavecount =
      ((EcMaster.soem .configInit).after m).ctx.slavecount := by
    simp only [EcMaster.scanSlaves, Program.after_bind, Program.after_ite, Program.after_pure,
      Program.after_get, ite_self]
  rw [infos, same]
  exact refreshSlaveInfos_numbered _

/-- After a shutdown there is nothing to number. -/
theorem numbered_doShutdown (c : EcatController β) : Numbered (doShutdown.after c) := by
  obtain ⟨m, marks, same, -⟩ := doShutdown_after c
  rw [same]
  intro listed
  cases listed

/-- A scan numbers what it finds, as many as the bus master counts. -/
theorem numbered_scan (keeps : KeepsCount β) (c : EcatController β) (numbered : Numbered c) :
    Numbered (scan.after c) := by
  by_cases ready : c.state = .adapterReady
  · rcases scan_spec c ready with ⟨accepted, -, same⟩ | ⟨-, -, same⟩
    · rw [same]
      exact fun _ => scanSlaves_numbered keeps c.master accepted.1
    · rw [same]
      exact numbered_doShutdown _
  · have refused : scan.after c = c := by simp [scan, ready]
    rw [refused]
    exact numbered

/-- Entering Maintenance numbers the slaves anew. -/
theorem numbered_enterMaintenance (c : EcatController β) (numbered : Numbered c) :
    Numbered (enterMaintenance.after c) := by
  by_cases known : c.state = .scanned
  · rcases enterMaintenance_spec c known with ⟨-, -, same⟩ | ⟨-, -, same⟩
    · rw [same]
      exact fun _ => refreshSlaveInfos_numbered _
    · rw [same]
      exact numbered_doShutdown _
  · have refused : enterMaintenance.after c = c := by simp [enterMaintenance, known]
    rw [refused]
    exact numbered

/-- An operation that stands for one action keeps the account. -/
theorem Mirrored.single (keeps : KeepsCount β) {c : EcatController β} (mirrored : Mirrored c)
    {operation : ControllerOperation} {action : MasterAction}
    (single : singleRequest operation = some action) :
    Mirrored ((perform operation).after c) := by
  have move := perform_move operation action single c
  refine ⟨move.resources mirrored.resources,
    (perform_nodes single c).conforms mirrored.conforming, ?_⟩
  by_cases scans : operation = .scan
  · subst scans
    exact numbered_scan keeps c mirrored.numbered
  by_cases enters : operation = .enterMaintenance
  · subst enters
    exact numbered_enterMaintenance c mirrored.numbered
  · have count := keeps_perform (EcMaster.ignores_slavecount keeps) operation
      (fun scanning => by rcases scanning with rfl | ⟨config, rfl⟩ <;> simp_all [singleRequest]) c
    refine numbered_of_move move ?_ ?_ count mirrored.numbered <;>
      cases operation <;> cases single <;> simp_all

/-- The convenience operation is a sequence of single ones. -/
theorem Mirrored.perform (keeps : KeepsCount β) {c : EcatController β} (mirrored : Mirrored c)
    (operation : ControllerOperation) : Mirrored ((EcatController.perform operation).after c) := by
  cases single : singleRequest operation with
  | some action => exact mirrored.single keeps single
  | none =>
    cases operation <;> cases single
    rename_i config
    have opened : Mirrored ((initializeAdapter config).after c) :=
      mirrored.single keeps (show singleRequest (.initializeAdapter config) = some _ from rfl)
    have found : Mirrored (scan.after ((initializeAdapter config).after c)) :=
      opened.single keeps (show singleRequest .scan = some _ from rfl)
    have entered : Mirrored (enterMaintenance.after (scan.after
        ((initializeAdapter config).after c))) :=
      found.single keeps (show singleRequest .enterMaintenance = some _ from rfl)
    have performed : (EcatController.perform (.initializeController config)).after c =
        (initializeController config).after c := rfl
    rw [performed]
    rcases initializeController_spec config c with
      ⟨-, -, same⟩ | ⟨-, ⟨-, -, same⟩ | ⟨-, -, -, same⟩ | ⟨-, -, -, same⟩⟩
    · rw [same]
      exact mirrored
    · rw [same]
      exact opened
    · rw [same]
      exact found
    · rw [same]
      exact entered

end EcatController

namespace Impl

open EcatController (Mirrored)

variable [Platform β]

/-- Every operation of the master keeps the account. The cases are the service and the
others. -/
theorem mirrored_perform (keeps : KeepsCount β) {i : Impl β} (settled : Settled i)
    (mirrored : Mirrored i.controller) (operation : MasterOperation) :
    Mirrored ((perform operation).after i).controller := by
  have move := (perform_move i settled operation).1
  refine ⟨move.resources mirrored.resources,
    (perform_nodes i settled operation).conforms mirrored.conforming, ?_⟩
  by_cases scans : operation = .scan
  · subst scans
    have performed : ((perform .scan).after i).controller =
        EcatController.scan.after i.controller := controller_transition ..
    rw [performed]
    exact EcatController.numbered_scan keeps _ mirrored.numbered
  by_cases enters : operation = .enterMaintenance
  · subst enters
    have performed : ((perform .enterMaintenance).after i).controller =
        EcatController.enterMaintenance.after i.controller := controller_transition ..
    rw [performed]
    exact EcatController.numbered_enterMaintenance _ mirrored.numbered
  · refine EcatController.numbered_of_move move ?_ ?_ (slavecount_kept keeps i scans)
      mirrored.numbered <;>
      cases operation <;> simp_all [MasterOperation.request]

/-- Every interaction keeps the nodes a mirror of the slaves. -/
theorem mirrored_interact (keeps : KeepsCount β) {i : Impl β} (settled : Settled i)
    (mirrored : Mirrored i.controller) (interaction : Interaction) :
    Mirrored ((interact interaction).after i).controller ∧
      Settled ((interact interaction).after i) := by
  cases interaction with
  | call call =>
    refine ⟨?_, (handle_path i settled call).2⟩
    cases call with
    | operation operation => exact mirrored_perform keeps settled mirrored operation
    | controller operation => exact mirrored.perform keeps operation
    | activity ok policy =>
      cases ok with
      | true => exact mirrored
      | false =>
        cases policy with
        | keepControllerState => exact mirrored
        | enterError => exact mirrored.perform keeps .requestFault
        | shutdown => exact mirrored.perform keeps .stop
  | steer act =>
    have seen : ((interact (.steer act)).after i).controller.abstraction =
        i.controller.abstraction := by
      refine congrArg (fun nodes => { i.controller.abstraction with nodes := nodes }) ?_
      refine (List.map_map ..).trans (List.map_congr_left fun node _ => ?_)
      simp only [Function.comp_apply, SlaveNode.info_onServoAxis,
        SlaveNode.configured_onServoAxis]
    refine ⟨⟨by rw [seen]; exact mirrored.resources, ?_, mirrored.numbered⟩, settled⟩
    intro node member
    obtain ⟨before, within, rfl⟩ := List.mem_map.mp member
    exact SlaveNode.conforms_onServoAxis (act before) before (mirrored.conforming before within)

/-- After every run of interactions the nodes mirror the slaves. -/
theorem mirrored_final (keeps : KeepsCount β) (platform : β)
    (onStateChanged onRuntimeStateChanged : Bool) (interactions : List Interaction) :
    Mirrored (Runs.final interact
      (constructed platform onStateChanged onRuntimeStateChanged) interactions).controller := by
  have initial : Mirrored
      (constructed platform onStateChanged onRuntimeStateChanged).controller :=
    ⟨⟨rfl, rfl⟩, by simp [constructed, fresh, EcatController.fresh], fun listed => nomatch listed⟩
  have reached := Runs.final_invariant interact _
    (fun i => Mirrored i.controller ∧ Settled i)
    (fun i interaction kept => mirrored_interact keeps kept.2 kept.1 interaction)
    ⟨initial, settled_constructed ..⟩ interactions
  exact reached.1

/-- Preparing a run keeps each configured node in its place. -/
theorem prepares_nodes (i : Impl β) {interaction : Interaction}
    (prepares : interaction.prepares = true) {k : Nat} {node : SlaveNode}
    (present : i.controller.nodes[k]? = some node) (configured : node.configured = true) :
    ((interact interaction).after i).controller.nodes[k]? = some node := by
  have performed : ((interact interaction).after i).controller =
      EcatController.prepareRun.after i.controller := by
    match interaction, prepares with
    | .call (.operation .prepareRun), _ => exact controller_transition ..
    | .call (.controller .prepareRun), _ => rfl
  have skipped : (SlaveNodeManager.configureNode node).2 = node := by
    simp [SlaveNodeManager.configureNode, configured]
  rw [performed, EcatController.prepareRun_nodes]
  split
  · simp [SlaveNodeManager.configureAll, present, skipped]
  · exact present

/-- Given that only a scan changes the number of slaves, after every run there are no
nodes before Maintenance; in Maintenance, ReadyToRun and Operational there is one node
for each scanned slave, by number; in the last two every node is configured as its slave
demands; and every preparation of a run leaves each configured node as it was. -/
theorem nodes_mirror_slaves (keeps : KeepsCount β) (platform : β)
    (onStateChanged onRuntimeStateChanged : Bool) (interactions : List Interaction) :
    let start := constructed platform onStateChanged onRuntimeStateChanged
    let c := (Runs.final interact start interactions).controller
    (c.state = .uninitialized ∨ c.state = .adapterReady ∨ c.state = .scanned → c.nodes = []) ∧
      (c.state.holdsNodes = true →
        c.nodes.map SlaveNode.info = c.slaveInfos ∧
          c.nodes.map (fun node => node.info.slaveId) =
            List.range' 1 c.master.getSlaveCount) ∧
      (c.state.holdsImage = true → ∀ node ∈ c.nodes, node.Mirrors) ∧
      ∀ entry ∈ Runs.history interact start interactions, entry.operation.prepares = true →
        ∀ (k : Nat) (node : SlaveNode), entry.before.controller.nodes[k]? = some node →
          node.configured = true → entry.after.controller.nodes[k]? = some node := by
  intro start c
  obtain ⟨resources, conforming, numbered⟩ :=
    mirrored_final keeps platform onStateChanged onRuntimeStateChanged interactions
  refine ⟨EcatController.nodes_early resources, fun holds => ?_, fun holds node member => ?_, ?_⟩
  · have infos := EcatController.nodes_infos resources holds
    have listed : Lifecycle.isListed c.state = true := by
      cases held : c.state <;> simp_all [ControllerState.holdsNodes, Lifecycle.isListed]
    refine ⟨infos, Eq.trans ?_ (numbered listed)⟩
    rw [← infos, List.map_map]
    rfl
  · exact (conforming node member).mirrors
      (EcatController.nodes_configured resources holds node member)
  · intro entry member prepares k node present configured
    obtain ⟨first, interaction, rfl⟩ := Runs.turn_of_mem_history interact start member
    exact prepares_nodes _ prepares present configured

/-- One slave, prepared, brought back and prepared again. -/
theorem nodes_mirror_bench :
    let c := (Runs.final interact (constructed ({ slaves := [{}] } : Bench) false false)
      [.call (.operation (.initializeAdapter {})), .call (.operation .scan),
        .call (.operation .enterMaintenance), .call (.operation .prepareRun),
        .call (.operation .backToMaintenance), .call (.operation .prepareRun)]).controller
    c.nodes.map (fun node => node.info.slaveId) = [1] ∧ ∀ node ∈ c.nodes, node.Mirrors := by
  intro c
  have mirror := nodes_mirror_slaves Bench.rewritesCount.toKeepsCount { slaves := [{}] } false false
    [.call (.operation (.initializeAdapter {})), .call (.operation .scan),
      .call (.operation .enterMaintenance), .call (.operation .prepareRun),
      .call (.operation .backToMaintenance), .call (.operation .prepareRun)]
  refine ⟨(mirror.2.1 (by decide)).2.trans ?_, mirror.2.2.1 (by decide)⟩
  have counted : c.master.getSlaveCount = 1 := by decide
  exact congrArg (List.range' 1) counted

end Impl

end MoEcat
