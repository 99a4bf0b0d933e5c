import MoEcat.SystemRuns

/-!
# A bench of simulated slaves

One concrete world behind the platform: a line of slaves that answer every call, adopt
every broadcast state except those they are told to refuse, and keep the windows that
the mapping gave them. The mapping lays out the output windows of all slaves one after
another and then their input windows. Statements about all platforms are exercised on
the bench.
-/

namespace MoEcat

/-- The population of the bench, in scan order, and the states that it refuses. -/
structure Bench where
  slaves : List EcSlave := []
  refused : List UInt16 := []
  -- Nanoseconds since the epoch; the clock of the bench stands still.
  now : Int := 0

namespace Bench

/-- The entry that a scan fills in for a slave: everything but its windows. -/
def scanned (bench : Bench) (i : Nat) : EcSlave :=
  match i with
  | 0 => {}
  | i + 1 => { bench.slaves.getD i {} with outputs := none, inputs := none }

/-- The sizes of the windows of the slave at a position. -/
def outputSize (bench : Bench) (k : Nat) : Nat := (bench.slaves.getD k {}).obytes.toNat

/-- The size of the input window of the slave at a position. -/
def inputSize (bench : Bench) (k : Nat) : Nat := (bench.slaves.getD k {}).ibytes.toNat

/-- Where the output window of a position begins: after those of the positions before. -/
def outputBase (bench : Bench) (k : Nat) : Nat := ((List.range k).map bench.outputSize).sum

/-- Input windows begin after all `n` output windows. -/
def inputBase (bench : Bench) (n k : Nat) : Nat :=
  bench.outputBase n + ((List.range k).map bench.inputSize).sum

/-- The mapping adds the windows and keeps the states; a slave without bytes in a
direction gets no window for it. -/
def mapped (bench : Bench) (ctx : EcContext) (i : Nat) : EcSlave :=
  match i with
  | 0 => ctx.slavelist 0
  | k + 1 =>
    { ctx.slavelist (k + 1) with
      obytes := (bench.slaves.getD k {}).obytes
      ibytes := (bench.slaves.getD k {}).ibytes
      outputs := if bench.outputSize k = 0 then none else some (bench.outputBase k)
      inputs := if bench.inputSize k = 0 then none
        else some (bench.inputBase ctx.slavecount k) }

/-- All slaves take the state that is written to entry 0. -/
def broadcast (ctx : EcContext) : EcContext :=
  { ctx with
    slavelist := fun i => { ctx.slavelist i with state := (ctx.slavelist 0).state } }

/-- Entry 0 shows the state of the first slave again. -/
def refresh (ctx : EcContext) : EcContext :=
  ctx.setState 0 (ctx.slavelist 1).state

/-- What the bench answers a call, and the context that it leaves. A broadcast of a refused
state changes nothing, and a read or a check shows the first slave in entry 0. -/
def answer (bench : Bench) (call : SoemCall) (ctx : EcContext) : SoemReply × EcContext :=
  match call with
  | .configInit =>
    ({ result := bench.slaves.length },
      { ctx with slavecount := bench.slaves.length, slavelist := bench.scanned })
  | .configMapGroup _ =>
    ({ result := bench.inputBase ctx.slavecount ctx.slavecount },
      { ctx with slavelist := bench.mapped ctx })
  | .writeState 0 requested =>
    ({ result := 1 }, if requested ∈ bench.refused then ctx else broadcast ctx)
  | .readState | .stateCheck 0 _ _ => ({ result := 1 }, refresh ctx)
  | _ => ({ result := 1 }, ctx)

/-- The bench as a platform: its slaves do not change, its clock stands still, and every log
file can be opened. -/
instance : Platform Bench where
  soem call ctx bench := ((bench.answer call ctx).1, (bench.answer call ctx).2, bench)
  steadyClock bench := (bench.now, bench)
  openLogFile _ bench := (.opened, bench)

end Bench

end MoEcat
