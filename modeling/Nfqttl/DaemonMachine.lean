/-
One phone to run the loop on: it has a process table, and finds the interfaces and
answers the cleanups its script says.
-/
import Nfqttl.DaemonRun

namespace Nfqttl.Daemon

open Effect

structure Machine where
  trace : Trace
  running : List Worker
  nextPid : Nat
  /-- What `discover` finds, one after the other. -/
  found : List Links
  /-- What `cleanup` answers, one after the other. -/
  cleaned : List Bool

/-- Timers never run out; while the loop waits the routes change, and the oldest worker dies. -/
def machine : Handler DaemonSig Machine
  | .stopping, m => (false, m)
  | .halted, m => (false, m)
  | .paused, m => (false, m)
  | .elapsed _ _, m => (false, m)
  | .reset _, m => ((), m)
  | .discover, m => (m.found.headD .default, { m with found := m.found.tail })
  | .syncQos _, m => ((), m)
  | .rulesOk .., m => (true, m)
  | .cleanup, m =>
    (m.cleaned.headD true, { m with cleaned := m.cleaned.tail, trace := m.trace ++ [.cleanup (m.cleaned.headD true)] })
  | .install4 _ _ _ _ active, m =>
    ((true, some (Firewall.inactive chainA chainB active)), { m with trace := m.trace ++ [.installed] })
  | .install6 _ _ _ _, m => ((true, none), m)
  | .terminate site pid, m =>
    let alive := m.running.any (·.pid == pid)
    (alive, { m with running := m.running.filter (·.pid != pid), trace := m.trace ++ [.stopped site pid alive] })
  | .tryWait pid, m => (!m.running.any (·.pid == pid), m)
  | .kill pid, m => ((), { m with running := m.running.filter (·.pid != pid) })
  | .reap _, m => ((), m)
  | .queueOwner q, m => ((m.running.find? (·.queue == q)).map fun w => (w.pid : Int), m)
  | .openLog _, m => (true, m)
  | .cloneLog _, m => (true, m)
  | .spawn q _, m => (some m.nextPid, { m with running := m.running ++ [⟨q, m.nextPid⟩], nextPid := m.nextPid + 1 })
  | .ready _, m => (true, m)
  | .queueStats _, m => (⟨m.running.length, 0, 0, 0, m.running.map fun w => (w.queue, 0, 0)⟩, m)
  | .trimLogs _, m => ((), m)
  | .sleep _, m => ((), m)
  | .wait _, m => (true, { m with running := m.running.tail })
  | .writeState _ _, m => ((), m)
  | .removeState _, m => ((), m)
  | .log _, m => ((), m)
  | .offloadApply _, m => ((), m)
  | .offloadRestore, m => ((), m)

theorem machine_logged (op : DaemonOp) (m : Machine) :
    logged op m.trace (machine op m).1 (machine op m).2.trace := by
  cases op with
  | cleanup => exact ⟨rfl, trivial⟩
  | terminate site pid => exact ⟨rfl, trivial⟩
  | install4 => exact ⟨rfl, .inr ⟨rfl, rfl⟩⟩
  | _ => exact ⟨(List.append_nil _).symm, trivial⟩

theorem runs_machine {α : Type} (p : DaemonProg α) (m : Machine) :
    Runs logged p m.trace (p.eval machine m).1 (p.eval machine m).2.trace := by
  have hrun : Runs machine.sem p m (p.eval machine m).1 (p.eval machine m).2 := Prog.runs_iff_eval.mpr rfl
  refine hrun.map (f := Machine.trace) ?_
  intro op s a s' h
  obtain ⟨rfl, rfl⟩ := Prod.mk.inj (show machine op s = (a, s') from h)
  exact machine_logged op s

/-- `n` more turns, or as many as there are before the loop is left. -/
def play (c : Setup) : Nat → List Turn → Loop → Machine → List Turn × Loop × Machine
  | 0, ts, l, m => (ts, l, m)
  | n + 1, ts, l, m =>
    match (turn c l).eval machine m with
    | (some l', m') => play c n (ts ++ [⟨l, m.trace, l', m'.trace⟩]) l' m'
    | (none, _) => (ts, l, m)

theorem play_run {c : Setup} {workers : Nat} : ∀ (n : Nat) (ts : List Turn) (l : Loop) (m : Machine),
    Run c workers ts l m.trace →
    Run c workers (play c n ts l m).1 (play c n ts l m).2.1 (play c n ts l m).2.2.trace
  | 0, _, _, _, h => h
  | n + 1, ts, l, m, h => by
    have hr := runs_machine (turn c l) m
    rw [play]
    generalize (turn c l).eval machine m = r at hr
    obtain ⟨_ | l', m'⟩ := r
    · exact h
    · exact play_run n _ l' m' (.turn h hr)

/-- The machine before the first turn. -/
def Machine.initial (found : List Links) (cleaned : List Bool) : Machine := ⟨[.cleanup true], [], 100, found, cleaned⟩

end Nfqttl.Daemon
