import MoEcat.ParamCommand
import MoEcat.SystemRuns

/-!
# The command-line application

The application serves the master once in every turn of its loop and then lets the state
of the master decide which commands it takes. A turn reads at most one line of input. The
program around the loop opens the adapter, goes on until an exit, the end of the input or
a signal, and stops the master.

What a turn logs is returned as lines. The level of a line, the threshold that `loglevel`
sets and the time stamps are left out, since nothing but the printing reads them. Showing
a mapping has the bound on its loops that the master's own operation has; a turn that
exhausts it has no result.
-/

namespace MoEcat

/-- What reading a line of input came to. -/
inductive ReadResult where
  | ok
  | timeout
  | eof
  | error
deriving DecidableEq, Repr

namespace EcatApplication

/-- The names that the program shows for the states. -/
def stateToString : MasterState → String
  | .uninitialized => "Uninitialized"
  | .adapterReady => "AdapterReady"
  | .scanned => "Scanned"
  | .maintenance => "Maintenance"
  | .readyToRun => "ReadyToRun"
  | .operational => "Operational"
  | .fault => "Fault"
  | .emergencyStop => "EmergencyStop"

/-- The words of a line, as reading from a stream splits it. -/
def words (line : String) : List String :=
  ((line.toList.splitOnP (· ∈ Numerals.blanks)).filter (· ≠ [])).map String.ofList

/-- Whether a line begins with a word, as `rfind(word, 0)` finds it. -/
def startsWith (line word : String) : Bool := word.toList.isPrefixOf line.toList

/-! ## Commands -/

/-- The lines that the inspection shows for one slave. -/
def showSlave (slave : SlaveInfo) : String :=
  "  Slave " ++ toString slave.slaveId ++ ": " ++ slave.name ++ " (0x" ++ hex slave.vendorId.toNat ++
    ", 0x" ++ hex slave.productId.toNat ++ ", 0x" ++ hex slave.revisionId.toNat ++ ")\n" ++
    "    config_address=0x" ++ hex slave.configAddress.toNat ++ ", alias_address=" ++
    toString slave.aliasAddress.toNat ++ ", supports_dc=" ++
    (if slave.supportsDc then "yes" else "no") ++ ", ec_state=" ++ toString slave.state.toNat ++
    ", al_status_code=" ++ toString slave.alStatusCode.toNat ++ ", output_bytes=" ++
    toString slave.outputBytes.toNat ++ ", input_bytes=" ++ toString slave.inputBytes.toNat ++ "\n"

/-- The answer to the command `loglevel`. The threshold that it sets is left out. -/
def onLogLevel : List String → List String
  | [_, level] =>
    if level ∈ ["debug", "info", "warn", "error"] then ["Log level set to " ++ level]
    else ["Unknown log level: " ++ level ++ "\nUsage: loglevel debug|info|warn|error"]
  | _ => ["Usage: loglevel debug|info|warn|error"]

/-- The command `help`: one text for all states. -/
def onHelp : List String :=
  ["Available commands by state:\n" ++
    "  [AdapterReady] scan                    - Scan slaves on the bus\n" ++
    "  [Scanned]      config                  - Enter Maintenance\n" ++
    "  [Maintenance]  diagnose                - Read statusword from all slaves\n" ++
    "  [Maintenance]  param <idx> <sub> <val> - Write a 32-bit parameter\n" ++
    "  [Maintenance]  inspect                 - Print master/slave snapshot\n" ++
    "  [Maintenance]  pdo [slave_id]          - Show PDO mapping (all or single slave)\n" ++
    "  [Maintenance]  prepare                 - Prepare PDO/DC/SafeOp and enter ReadyToRun\n" ++
    "  [ReadyToRun]   start                   - Enter OPERATIONAL\n" ++
    "  [ReadyToRun]   back                    - Return to Maintenance\n" ++
    "  [Any]          loglevel <level>        - Set log level (debug/info/warn/error)\n" ++
    "  [Any]          stop                    - Stop controller\n" ++
    "  [Any]          exit / quit             - Quit program"]

variable {β : Type}

/-- The command `inspect`: the snapshot, one slave after another. -/
def onInspect (i : Impl β) : List String :=
  let snapshot := i.getSnapshot
  ["Inspection result:\nMaster state: " ++ stateToString snapshot.state ++ "\nSlave count: " ++
    toString snapshot.slaves.length ++ "\n" ++ String.join (snapshot.slaves.map showSlave)]

variable [Platform β]

/-- Read the status word of the slaves of these numbers. -/
def diagnoseSlaves : List Nat → Program (Impl β) (List String)
  | [] => return []
  | i :: rest => do
    let (ok, data) ← Impl.readSdo (narrowInt i) 0x6041 0x00 [0, 0] 1000
    let line := "Slave " ++ toString i ++
      if ok then " statusword 0x6041:0 = 0x" ++ hex (unsignedLittleEndian data)
      else " failed to read 0x6041:0"
    return line :: (← diagnoseSlaves rest)

/-- The command `diagnose`: an upload from every slave. -/
def onDiagnose : Program (Impl β) (List String) := do
  let i ← get
  if i.getSlaveCount = 0 then return ["No slave available for diagnosis"]
  else do
    let header := "Running SDO diagnostics on " ++ toString i.getSlaveCount ++ " slave(s)..."
    return header :: (← diagnoseSlaves (List.range' 1 i.getSlaveCount))

/-- Show the mappings of the slaves of these numbers. -/
def dumpSlaves (fuel : Nat) : List Nat → Program (Impl β) (Option (List String))
  | [] => return some []
  | i :: rest => do
    let mapping ← Impl.dumpPdoMapping fuel (narrowInt i)
    match mapping with
    | none => return none
    | some mapping => do
      let lines ← dumpSlaves fuel rest
      return lines.map fun lines => ("Slave " ++ toString i ++ " PDO mapping:\n" ++ mapping) :: lines

/-- The command `pdo`: the mapping of every slave, or of the one that is named. -/
def onPdo (fuel : Nat) : List String → Program (Impl β) (Option (List String))
  | [_] => do
    let i ← get
    let lines ← dumpSlaves fuel (List.range' 1 i.getSlaveCount)
    return lines.map fun lines => "Reading PDO mapping for all slaves..." :: lines
  | [_, target] =>
    match Numerals.stoi target with
    | .error _ => return some ["Invalid slave_id: " ++ target ++ "\nUsage: pdo [slave_id]"]
    | .ok targetId => do
      let mapping ← Impl.dumpPdoMapping fuel targetId
      return mapping.map fun mapping =>
        if mapping = "" then ["Slave " ++ toString targetId ++ " not available"]
        else ["Slave " ++ toString targetId ++ " PDO mapping:\n" ++ mapping]
  | _ => return some ["Usage: pdo [slave_id]"]

/-! ## The states -/

/-- A lifecycle call with the line that announces it and the one that reports a failure. -/
def attempt (name failure : String) (call : Program (Impl β) Bool) :
    Program (Impl β) (List String) := do
  let ok ← call
  return ("Command: " ++ name) :: if ok then [] else [failure]

/-- The command `stop`. -/
def stopCommand : Program (Impl β) (List String) := do
  Impl.stop
  return ["Command: stop"]

/-- The commands of AdapterReady. -/
def handleAdapterReadyState (command : Option String) : Program (Impl β) (List String) :=
  match command with
  | none => return []
  | some command =>
    if command = "scan" then attempt "scan" "Scan failed" Impl.scan
    else if command = "stop" then stopCommand
    else if command = "help" then return onHelp
    else return ["Command '" ++ command ++ "' not allowed in AdapterReady state"]

/-- The commands of Scanned. -/
def handleScannedState (command : Option String) : Program (Impl β) (List String) :=
  match command with
  | none => return []
  | some command =>
    if command = "config" then
      attempt "config" "Failed to enter Maintenance" Impl.enterMaintenance
    else if command = "stop" then stopCommand
    else if command = "help" then return onHelp
    else return ["Command '" ++ command ++ "' not allowed in Scanned state"]

/-- The commands with arguments are recognised by how the line begins. -/
def handleMaintenanceState (fuel : Nat) (command : Option String) :
    Program (Impl β) (Option (List String)) :=
  match command with
  | none => return some []
  | some command =>
    if command = "diagnose" then do return some ("Command: diagnose" :: (← onDiagnose))
    else if startsWith command "param" then some <$> onParam (words command)
    else if command = "inspect" then do return some ("Command: inspect" :: onInspect (← get))
    else if startsWith command "pdo" then onPdo fuel (words command)
    else if command = "prepare" then
      some <$> attempt "prepare" "Failed to prepare operation" Impl.prepareRun
    else if command = "stop" then some <$> stopCommand
    else if command = "help" then return some onHelp
    else return some ["Unknown command: " ++ command]

/-- The commands of ReadyToRun. -/
def handleReadyToRunState (command : Option String) : Program (Impl β) (List String) :=
  match command with
  | none => return []
  | some command =>
    if command = "start" then attempt "start" "Failed to start operation" Impl.startOperation
    else if command = "back" then
      attempt "back" "Failed to back to Maintenance" Impl.backToMaintenance
    else if command = "stop" then stopCommand
    else if command = "help" then return onHelp
    else return ["Command '" ++ command ++ "' not allowed in ReadyToRun state"]

/-- Other commands are ignored while the drives run. -/
def handleOperationalState (command : Option String) : Program (Impl β) (List String) :=
  if command = some "stop" then stopCommand else return []

/-- The one command of Fault and EmergencyStop. -/
def handleErrorState (command : Option String) : Program (Impl β) (List String) :=
  match command with
  | none => return []
  | some command =>
    if command = "stop" then stopCommand
    else return ["In Fault/EmergencyStop state, only 'stop' is allowed"]

/-- What a turn does with its command, by the state that the service has led to. -/
def handleCommand (fuel : Nat) (command : Option String) :
    Program (Impl β) (Option (List String)) := do
  let i ← get
  match i.getState with
  | .adapterReady => some <$> handleAdapterReadyState command
  | .scanned => some <$> handleScannedState command
  | .maintenance => handleMaintenanceState fuel command
  | .readyToRun => some <$> handleReadyToRunState command
  | .operational => some <$> handleOperationalState command
  | .fault | .emergencyStop => some <$> handleErrorState command
  | .uninitialized => return some []

/-- One turn: whether the application goes on, and what it logs. -/
def run (fuel : Nat) (result : ReadResult) (line : String) :
    Program (Impl β) (Option (Bool × List String)) :=
  let command := if result = .ok then some line else none
  if result = .eof then return some (false, ["EOF detected, requesting shutdown"])
  else if command = some "exit" ∨ command = some "quit" then
    return some (false, ["Exit requested"])
  else if result = .ok ∧ startsWith line "loglevel" then
    return some (true, onLogLevel (words line))
  else do
    Impl.service
    let lines ← handleCommand fuel command
    return lines.map fun lines => (true, lines)

/-! ## The program -/

/-- What the outside does to one turn of the loop. -/
inductive LoopInput where
  -- The test of the loop finds that a signal has come in.
  | signalled
  | reads (result : ReadResult) (line : String)
deriving DecidableEq, Repr

/-- How a loop over some inputs has ended, if it has. -/
inductive LoopEnd where
  | running
  | left
  -- A command does not return.
  | stuck
deriving DecidableEq, Repr

/-- The program's loop over the inputs that come: it ends at a signal, when a turn says so,
or when a command does not return. -/
def loop (fuel : Nat) : List LoopInput → Program (Impl β) (LoopEnd × List String)
  | [] => return (.running, [])
  | .signalled :: _ => return (.left, [])
  | .reads result line :: rest => do
    let turn ← run fuel result line
    match turn with
    | none => return (.stuck, [])
    | some (false, lines) => return (.left, lines)
    | some (true, lines) => do
      let (ending, later) ← loop fuel rest
      return (ending, lines ++ later)

/-- The configuration of a program that is given the name of an interface. -/
def programConfig (ifname : String) : EcMasterConfig := { ifname := ifname, useDc := true }

/-- The program, with its exit status once it has one. The master goes at its end. -/
def main (fuel : Nat) (program : String) (arguments : List String) (inputs : List LoopInput) :
    Program (Impl β) (Option Int × List String) :=
  match arguments with
  | [] => return (some 1, ["Usage: " ++ program ++ " <interface>"])
  | ifname :: _ => do
    let ready ← Impl.initializeAdapter (programConfig ifname)
    if ready = false then do
      Impl.destroy
      return (some 1, ["Failed to initialize application"])
    else do
      let (ending, later) ← loop fuel inputs
      let lines := "Application running. Type 'help' for commands, 'exit' to quit." :: later
      if ending = .left then do
        Impl.stop
        Impl.destroy
        return (some 0, lines ++ ["Shutting down..."])
      else return (none, lines)

end EcatApplication

end MoEcat
