/-
What `cleanup` makes of commands that fail by themselves.

`del_jump` reads the absence of a jump from the exit status of `-C`, so a check
that fails for another reason (the xtables lock, the time limit) reads as "no jump
left". The results below say for which failures and which tables the answer true
still means that `FORWARD` has no jump to a chain of the module.
-/
import Nfqttl.FirewallRun

namespace Nfqttl

open Effect

/-- The tables, and every command issued so far. -/
structure Session where
  tables : Tables
  issued : List (Bool × Cmd)
  deriving DecidableEq

/-- Which issues of a command fail by themselves: `fails v6 x n` for issue `n` of `x`. -/
abbrev Faults := Bool → Cmd → Nat → Bool

/-- The tools under `fails`: a failing command answers false and changes nothing. -/
def faulty (fails : Faults) : Handler FwSig Session
  | .run v6 x, s =>
    if fails v6 x (s.issued.count (v6, x)) then (false, { s with issued := (v6, x) :: s.issued })
    else
      let (ok, tables) := iptables (.run v6 x) s.tables
      (ok, ⟨tables, (v6, x) :: s.issued⟩)
  | .show v6 c, s => ((iptables (.show v6 c) s.tables).1, s)

/-- Some rule of `FORWARD`, with matches of its own or without, leads to one of `hooks`. -/
def Attached (hooks : List String) (t : Table) : Prop := ∃ c ∈ hooks, ∃ r ∈ t.fwd, r.target? = some c

instance (hooks : List String) (t : Table) : Decidable (Attached hooks t) :=
  inferInstanceAs (Decidable (∃ c ∈ hooks, ∃ r ∈ t.fwd, r.target? = some c))

namespace Firewall

variable {fw : Firewall} {v6 : Bool} {fails : Faults}

/-- The check and the delete of a round of `del_jump`. -/
def checkOf (c : String) : Cmd := .check "FORWARD" (jumpTo c)
def deleteOf (c : String) : Cmd := .delete "FORWARD" (jumpTo c)

/-- In rounds `j` to `j + n` of `del_jump` for `c` no command fails by itself. -/
def Quiet (fails : Faults) (v6 : Bool) (c : String) (j n : Nat) : Prop :=
  ∀ i < n, fails v6 (checkOf c) (j + i) = false ∧ fails v6 (deleteOf c) (j + i) = false

/-- A check fails by itself while a jump to `c` is left. -/
def Misread (fails : Faults) (v6 : Bool) (t : Table) (c : String) : Prop :=
  ∃ n < 16, n < t.fwd.count (jumpTo c) ∧ Quiet fails v6 c 0 n ∧ fails v6 (checkOf c) n = true

/-- A delete fails by itself, or 16 rounds are not enough. -/
def Abandoned (fails : Faults) (v6 : Bool) (t : Table) (c : String) : Prop :=
  (∃ n < 16, n < t.fwd.count (jumpTo c) ∧ Quiet fails v6 c 0 n ∧ fails v6 (checkOf c) n = false ∧
    fails v6 (deleteOf c) n = true) ∨
  16 ≤ t.fwd.count (jumpTo c) ∧ Quiet fails v6 c 0 16

/-- No check misreads, and only plain jumps lead to `hooks`: those `-C` and `-D` name. -/
def Sound (fails : Faults) (v6 : Bool) (hooks : List String) (t : Table) : Prop :=
  ∀ c ∈ hooks, ¬ Misread fails v6 t c ∧ ∀ r ∈ t.fwd, r.target? = some c → r = jumpTo c

theorem Quiet.succ {c : String} {j n : Nat} (hc : fails v6 (checkOf c) j = false)
    (hd : fails v6 (deleteOf c) j = false) (h : Quiet fails v6 c (j + 1) n) : Quiet fails v6 c j (n + 1)
  | 0, _ => ⟨hc, hd⟩
  | i + 1, hi => by
    have := h i (by omega)
    rwa [show j + 1 + i = j + (i + 1) by omega] at this

/-! ## One chain -/

theorem faulty_run (h : fw.Has v6) (x : Cmd) (s : Session) :
    (fw.run v6 x).eval (faulty fails) s = faulty fails (.run v6 x) s := by
  rw [run_eq h]
  rfl

theorem faulty_fail (h : fw.Has v6) {x : Cmd} {s : Session}
    (hf : fails v6 x (s.issued.count (v6, x)) = true) :
    (fw.run v6 x).eval (faulty fails) s = (false, ⟨s.tables, (v6, x) :: s.issued⟩) := by
  rw [faulty_run h]
  simp [faulty, hf]

theorem faulty_check (h : fw.Has v6) {c : String} {s : Session}
    (hf : fails v6 (checkOf c) (s.issued.count (v6, checkOf c)) = false) :
    (fw.run v6 (checkOf c)).eval (faulty fails) s =
      (decide (jumpTo c ∈ (s.tables.fam v6).fwd), ⟨s.tables, (v6, checkOf c) :: s.issued⟩) := by
  have hx : (checkOf c).exec (s.tables.fam v6) = _ := exec_check_forward _ _
  rw [faulty_run h]
  by_cases hm : jumpTo c ∈ (s.tables.fam v6).fwd
  · simp [faulty, hf, iptables, hx, hm]
  · simp [faulty, hf, iptables, hx, hm]

theorem faulty_delete (h : fw.Has v6) {c : String} {s : Session}
    (hf : fails v6 (deleteOf c) (s.issued.count (v6, deleteOf c)) = false)
    (hm : jumpTo c ∈ (s.tables.fam v6).fwd) :
    (fw.run v6 (deleteOf c)).eval (faulty fails) s =
      (true, ⟨s.tables.put v6 ((s.tables.fam v6).set "FORWARD" ((s.tables.fam v6).fwd.erase (jumpTo c))),
        (v6, deleteOf c) :: s.issued⟩) := by
  have hx : (deleteOf c).exec (s.tables.fam v6) = _ := exec_delete_forward hm
  rw [faulty_run h]
  simp [faulty, hf, iptables, hx]

/-- The commands a `del_jump` for `c` adds to the log. -/
def Logged (v6 : Bool) (c : String) (log log' : List (Bool × Cmd)) : Prop :=
  ∃ l, log' = l ++ log ∧ ∀ x ∈ l, x = (v6, checkOf c) ∨ x = (v6, deleteOf c)

theorem Logged.cons {c : String} {x : Bool × Cmd} {log log' : List (Bool × Cmd)}
    (h : Logged v6 c (x :: log) log') (hx : x = (v6, checkOf c) ∨ x = (v6, deleteOf c)) : Logged v6 c log log' := by
  obtain ⟨l, rfl, hl⟩ := h
  refine ⟨l ++ [x], by simp, fun y hy => ?_⟩
  rcases List.mem_append.mp hy with hy | hy
  exacts [hl y hy, List.mem_singleton.mp hy ▸ hx]

/-- How `del_jump` ended after `m` of `n` rounds that each removed a jump, of `k`. -/
def Ended (fails : Faults) (v6 : Bool) (c : String) (j n k m : Nat) : Bool → Prop
  | true => m < n ∧ (fails v6 (checkOf c) (j + m) = true ∨ m = k)
  | false => m = n ∨ (m < n ∧ m < k ∧ fails v6 (checkOf c) (j + m) = false ∧ fails v6 (deleteOf c) (j + m) = true)

/-- `del_jump` from round `j` with `n` rounds left: some rounds go through and remove
a jump each, then one ends it. -/
theorem delJumpLoop_faulty (h : fw.Has v6) (c : String) : ∀ (n j : Nat) (s : Session),
    s.issued.count (v6, checkOf c) = j → s.issued.count (v6, deleteOf c) = j →
    ∃ m ≤ (s.tables.fam v6).fwd.count (jumpTo c), ∃ log ok,
      (fw.delJumpLoop v6 "FORWARD" c n).eval (faulty fails) s =
        (ok, ⟨s.tables.put v6 ((s.tables.fam v6).set "FORWARD"
          ((fun l => l.erase (jumpTo c))^[m] (s.tables.fam v6).fwd)), log⟩) ∧
      Logged v6 c s.issued log ∧ Quiet fails v6 c j m ∧
      Ended fails v6 c j n ((s.tables.fam v6).fwd.count (jumpTo c)) m ok
  | 0, j, s, _, _ => by
    refine ⟨0, Nat.zero_le _, s.issued, false, ?_, ⟨[], rfl, by simp⟩, fun i hi => by omega, .inl rfl⟩
    simp [delJumpLoop, Table.set_rules (Table.rules_forward _)]
  | n + 1, j, s, hcj, hdj => by
    have hstay : s.tables.put v6 ((s.tables.fam v6).set "FORWARD" (s.tables.fam v6).fwd) = s.tables := by
      rw [Table.set_rules (Table.rules_forward _), Tables.put_fam]
    have hlog : Logged v6 c s.issued ((v6, checkOf c) :: s.issued) := ⟨[(v6, checkOf c)], rfl, by simp⟩
    cases hfc : fails v6 (checkOf c) j with
    | true =>
      refine ⟨0, Nat.zero_le _, _, true, ?_, hlog, fun i hi => by omega, by omega, .inl hfc⟩
      have hcheck := faulty_fail h (hcj.symm ▸ hfc)
      simp only [checkOf] at hcheck
      simp [delJumpLoop, hcheck, hstay, checkOf]
    | false =>
      have hcheck := faulty_check h (hcj.symm ▸ hfc)
      by_cases hm : jumpTo c ∈ (s.tables.fam v6).fwd
      · have hdj' : ((v6, checkOf c) :: s.issued).count (v6, deleteOf c) = j := by
          rw [List.count_cons_of_ne (by simp [checkOf, deleteOf]), hdj]
        have hpos := List.count_pos_iff.mpr hm
        cases hfd : fails v6 (deleteOf c) j with
        | true =>
          refine ⟨0, Nat.zero_le _, _, false, ?_, ⟨[(v6, deleteOf c), (v6, checkOf c)], rfl, by simp⟩,
            fun i hi => by omega, .inr ⟨by omega, hpos, hfc, hfd⟩⟩
          have hdel := faulty_fail h (s := ⟨s.tables, (v6, checkOf c) :: s.issued⟩) (hdj'.symm ▸ hfd)
          simp only [checkOf, deleteOf] at hcheck hdel
          simp [delJumpLoop, hcheck, hm, hdel, hstay, checkOf, deleteOf]
        | false =>
          have hdel := faulty_delete h (s := ⟨s.tables, (v6, checkOf c) :: s.issued⟩) (hdj'.symm ▸ hfd) hm
          obtain ⟨m, hmk, log, ok, hrun, hlog', hq, hend⟩ := delJumpLoop_faulty h c n (j + 1)
            ⟨s.tables.put v6 ((s.tables.fam v6).set "FORWARD" ((s.tables.fam v6).fwd.erase (jumpTo c))),
              (v6, deleteOf c) :: (v6, checkOf c) :: s.issued⟩
            (by simp [checkOf, deleteOf, ← hcj]) (by simp [checkOf, deleteOf, ← hdj])
          have hcount := count_erase_add_one hm
          simp only [Tables.fam_put, Table.fwd_set_forward, Tables.put_put, Table.set_set] at hmk hrun hend
          refine ⟨m + 1, by omega, log, ok, ?_, (hlog'.cons (.inr rfl)).cons (.inl rfl), hq.succ hfc hfd, ?_⟩
          · simp only [checkOf, deleteOf] at hcheck hdel hrun
            simp [delJumpLoop, hcheck, hm, hdel, hrun]
          · rw [← hcount]
            simp only [Ended, Nat.add_lt_add_iff_right, Nat.add_right_cancel_iff,
              show j + (m + 1) = j + 1 + m by omega] at hend ⊢
            exact hend
      · refine ⟨0, Nat.zero_le _, _, true, ?_, hlog, fun i hi => by omega, by omega,
          .inr (List.count_eq_zero.mpr hm).symm⟩
        simp only [checkOf] at hcheck
        simp [delJumpLoop, hcheck, hm, hstay, checkOf]

theorem count_iterate_erase_ne {r r' : Rule} (h : r' ≠ r) : ∀ (m : Nat) (l : List Rule),
    ((fun l => l.erase r)^[m] l).count r' = l.count r'
  | 0, _ => rfl
  | m + 1, l => by rw [Function.iterate_succ_apply, count_iterate_erase_ne h m, List.count_erase_of_ne h]

/-- An answer true leaves a jump when a check was misread. -/
theorem Ended.misread {c : String} {t : Table} {m : Nat} (hq : Quiet fails v6 c 0 m)
    (h : Ended fails v6 c 0 16 (t.fwd.count (jumpTo c)) m true) :
    m < t.fwd.count (jumpTo c) ↔ Misread fails v6 t c := by
  obtain ⟨hm, hend⟩ := h
  rw [Nat.zero_add] at hend
  constructor
  · intro hk
    exact ⟨m, hm, hk, hq, hend.resolve_right hk.ne⟩
  · rintro ⟨n, -, hnk, hqn, hfn⟩
    rcases Nat.lt_trichotomy n m with hlt | rfl | hgt
    · have := (hq n hlt).1
      simp [hfn] at this
    · exact hnk
    · have := (hqn m hgt).1
      rw [Nat.zero_add] at this
      simp only [this, Bool.false_eq_true, false_or] at hend
      omega

/-- The answer is false when the chain is abandoned. -/
theorem Ended.abandoned {c : String} {t : Table} {m : Nat} {ok : Bool} (hq : Quiet fails v6 c 0 m)
    (hmk : m ≤ t.fwd.count (jumpTo c)) (h : Ended fails v6 c 0 16 (t.fwd.count (jumpTo c)) m ok) :
    ok = false ↔ Abandoned fails v6 t c := by
  cases ok with
  | false =>
    refine ⟨fun _ => ?_, fun _ => rfl⟩
    rcases h with rfl | ⟨hm, hk, hfc, hfd⟩
    · exact .inr ⟨hmk, hq⟩
    · rw [Nat.zero_add] at hfc hfd
      exact .inl ⟨m, hm, hk, hq, hfc, hfd⟩
  | true =>
    obtain ⟨hm, hend⟩ := h
    rw [Nat.zero_add] at hend
    refine ⟨fun he => absurd he (by simp), ?_⟩
    -- The round that ended it would have been quiet, or is the abandoning one.
    have hquiet : ∀ n, m < n → n ≤ t.fwd.count (jumpTo c) → ¬ Quiet fails v6 c 0 n := by
      intro n hgt hnk hqn
      have := (hqn m hgt).1
      rw [Nat.zero_add] at this
      simp only [this, Bool.false_eq_true, false_or] at hend
      omega
    rintro (⟨n, -, hnk, hqn, hfc, hfd⟩ | ⟨hk, hq16⟩)
    · rcases Nat.lt_trichotomy n m with hlt | rfl | hgt
      · have := (hq n hlt).2
        simp [hfd] at this
      · simp only [hfc, Bool.false_eq_true, false_or] at hend
        omega
      · exact absurd hqn (hquiet n hgt hnk.le)
    · exact absurd hq16 (hquiet 16 hm hk)

/-- The log holds no command of `del_jump` for `c`. -/
def Fresh (v6 : Bool) (c : String) (log : List (Bool × Cmd)) : Prop :=
  (v6, checkOf c) ∉ log ∧ (v6, deleteOf c) ∉ log

theorem Logged.fresh {c d : String} {log log' : List (Bool × Cmd)} (h : Logged v6 c log log') (hd : d ≠ c)
    (hf : Fresh v6 d log) : Fresh v6 d log' := by
  obtain ⟨l, rfl, hl⟩ := h
  constructor
  · rw [List.mem_append, not_or]
    refine ⟨fun hm => ?_, hf.1⟩
    rcases hl _ hm with he | he <;> simp [checkOf, deleteOf, jumpTo, hd] at he
  · rw [List.mem_append, not_or]
    refine ⟨fun hm => ?_, hf.2⟩
    rcases hl _ hm with he | he <;> simp [checkOf, deleteOf, jumpTo, hd] at he

theorem Logged.fresh_not {c d : String} {log log' : List (Bool × Cmd)} (h : Logged v6 c log log')
    (hf : Fresh (!v6) d log) : Fresh (!v6) d log' := by
  obtain ⟨l, rfl, hl⟩ := h
  constructor
  · rw [List.mem_append, not_or]
    refine ⟨fun hm => ?_, hf.1⟩
    rcases hl _ hm with he | he <;> simp at he
  · rw [List.mem_append, not_or]
    refine ⟨fun hm => ?_, hf.2⟩
    rcases hl _ hm with he | he <;> simp at he

theorem delJump_faulty (fails : Faults) (h : fw.Has v6) {c : String} {s : Session} (hf : Fresh v6 c s.issued) :
    ∃ ok rs log, (fw.delJump v6 "FORWARD" c).eval (faulty fails) s =
        (ok, ⟨s.tables.put v6 ((s.tables.fam v6).set "FORWARD" rs), log⟩) ∧
      Logged v6 c s.issued log ∧ (ok = false ↔ Abandoned fails v6 (s.tables.fam v6) c) ∧
      (ok = true → (jumpTo c ∈ rs ↔ Misread fails v6 (s.tables.fam v6) c)) ∧
      ∀ r, r ≠ jumpTo c → rs.count r = (s.tables.fam v6).fwd.count r := by
  obtain ⟨m, hmk, log, ok, hrun, hlog, hq, hend⟩ := delJumpLoop_faulty h c 16 0 s
    (List.count_eq_zero.mpr hf.1) (List.count_eq_zero.mpr hf.2)
  refine ⟨ok, _, log, hrun, hlog, hend.abandoned hq hmk, ?_, fun r hr => count_iterate_erase_ne hr m _⟩
  rintro rfl
  rw [← hend.misread hq, ← List.count_pos_iff, count_iterate_erase_self]
  omega

/-! ## All chains of a family -/

theorem misread_congr {t t' : Table} {c : String} (h : t'.fwd.count (jumpTo c) = t.fwd.count (jumpTo c)) :
    Misread fails v6 t' c ↔ Misread fails v6 t c := by simp only [Misread, h]

theorem abandoned_congr {t t' : Table} {c : String} (h : t'.fwd.count (jumpTo c) = t.fwd.count (jumpTo c)) :
    Abandoned fails v6 t' c ↔ Abandoned fails v6 t c := by simp only [Abandoned, h]

theorem jumpTo_inj {c d : String} : jumpTo c = jumpTo d ↔ c = d := by simp [jumpTo]

theorem delJumps_faulty (fails : Faults) (h : fw.Has v6) : ∀ (cs : List String) (s : Session), cs.Nodup →
    (∀ c ∈ cs, Fresh v6 c s.issued) →
    ∃ ok rs log, (fw.delJumps v6 cs).eval (faulty fails) s =
        (ok, ⟨s.tables.put v6 ((s.tables.fam v6).set "FORWARD" rs), log⟩) ∧
      (∀ d, Fresh (!v6) d s.issued → Fresh (!v6) d log) ∧
      (ok = false ↔ ∃ c ∈ cs, Abandoned fails v6 (s.tables.fam v6) c) ∧
      (ok = true → ∀ c ∈ cs, jumpTo c ∈ rs ↔ Misread fails v6 (s.tables.fam v6) c) ∧
      ∀ r, (∀ c ∈ cs, r ≠ jumpTo c) → rs.count r = (s.tables.fam v6).fwd.count r
  | [], s, _, _ => by
    refine ⟨true, (s.tables.fam v6).fwd, s.issued, ?_, fun _ hd => hd, by simp, by simp, fun _ _ => rfl⟩
    simp [delJumps, Table.set_rules (Table.rules_forward _)]
  | c :: cs, s, hnd, hfresh => by
    obtain ⟨hc, hnd⟩ := List.nodup_cons.mp hnd
    obtain ⟨ok, rs, log, hrun, hlog, hab, hmis, hcount⟩ := delJump_faulty fails h (hfresh c (by simp))
    have hother : ∀ d, Fresh (!v6) d s.issued → Fresh (!v6) d log := fun d => hlog.fresh_not
    cases ok with
    | false =>
      refine ⟨false, rs, log, by simp [delJumps, hrun], hother, ?_, by simp, fun r hr => hcount r (hr c (by simp))⟩
      exact ⟨fun _ => ⟨c, by simp, hab.mp rfl⟩, fun _ => rfl⟩
    | true =>
      have hsame : ∀ d ∈ cs, ((s.tables.fam v6).set "FORWARD" rs).fwd.count (jumpTo d) =
          (s.tables.fam v6).fwd.count (jumpTo d) := by
        intro d hd
        rw [Table.fwd_set_forward]
        exact hcount _ fun he => hc (jumpTo_inj.mp he ▸ hd)
      obtain ⟨ok', rs', log', hrun', hother', hab', hmis', hcount'⟩ := delJumps_faulty fails h cs
        ⟨s.tables.put v6 ((s.tables.fam v6).set "FORWARD" rs), log⟩ hnd
        fun d hd => hlog.fresh (fun he => hc (he ▸ hd)) (hfresh d (by simp [hd]))
      simp only [Tables.fam_put, Tables.put_put, Table.set_set, Table.fwd_set_forward] at hrun' hab' hmis' hcount'
      refine ⟨ok', rs', log', by simp [delJumps, hrun, hrun'], fun d hd => hother' d (hother d hd), ?_, ?_, ?_⟩
      · rw [hab']
        have hnot : ¬ Abandoned fails v6 (s.tables.fam v6) c := fun ha => by simpa using hab.mpr ha
        simp only [List.mem_cons, exists_eq_or_imp, hnot, false_or]
        exact exists_congr fun d => and_congr_right fun hd => abandoned_congr (hsame d hd)
      · intro hok d hd
        rcases List.mem_cons.mp hd with rfl | hd
        · rw [← hmis rfl, ← List.count_pos_iff, ← List.count_pos_iff,
            hcount' (jumpTo d) fun e he hj => hc (jumpTo_inj.mp hj ▸ he)]
        · rw [hmis' hok d hd, misread_congr (hsame d hd)]
      · intro r hr
        rw [hcount' r fun d hd => hr d (by simp [hd]), hcount r (hr c (by simp))]

/-- What the commands of `cleanup` that follow the jumps leave alone. -/
structure Leaves (v6 : Bool) (s s' : Session) : Prop where
  fwd : (s'.tables.fam v6).fwd = (s.tables.fam v6).fwd
  other : s'.tables.fam (!v6) = s.tables.fam (!v6)
  fresh : ∀ d, Fresh (!v6) d s.issued → Fresh (!v6) d s'.issued

theorem faulty_leaves (fails : Faults) (v6 : Bool) {x : Cmd} (hx : ∀ t t', x.exec t = some t' → t'.fwd = t.fwd)
    (s : Session) :
    Leaves v6 s (faulty fails (.run v6 x) s).2 := by
  have hfresh : ∀ d, Fresh (!v6) d s.issued → Fresh (!v6) d ((v6, x) :: s.issued) := fun d hd =>
    ⟨by simp [hd.1], by simp [hd.2]⟩
  by_cases hf : fails v6 x (s.issued.count (v6, x)) = true
  · simp only [faulty, hf, if_true]
    exact ⟨rfl, rfl, hfresh⟩
  · cases ht : x.exec (s.tables.fam v6) with
    | some t =>
      simp only [faulty, hf, iptables, ht]
      exact ⟨by simpa using hx _ _ ht, by simp, hfresh⟩
    | none =>
      simp only [faulty, hf, iptables, ht]
      exact ⟨rfl, rfl, hfresh⟩

theorem each_leaves (fails : Faults) (h : fw.Has v6) {f : String → Cmd} : ∀ (cs : List String) (s : Session),
    (∀ c ∈ cs, ∀ t t', (f c).exec t = some t' → t'.fwd = t.fwd) →
    Leaves v6 s ((fw.each v6 f cs).eval (faulty fails) s).2
  | [], s, _ => ⟨rfl, rfl, fun _ hd => hd⟩
  | c :: cs, s, hx => by
    have hone := faulty_leaves fails v6 (hx c (by simp)) s
    have ih := each_leaves fails h cs (faulty fails (.run v6 (f c)) s).2 fun d hd => hx d (by simp [hd])
    simp only [each, Prog.eval_bind, faulty_run h]
    exact ⟨ih.fwd.trans hone.fwd, ih.other.trans hone.other, fun d hd => ih.fresh d (hone.fresh d hd)⟩

theorem flush_fwd {c : String} (hc : c ≠ "FORWARD") {t t' : Table} (hx : (Cmd.flush c).exec t = some t') :
    t'.fwd = t.fwd := by
  simp only [Cmd.exec, Option.map_eq_some_iff] at hx
  obtain ⟨_, -, rfl⟩ := hx
  exact Table.fwd_set_ne _ _ hc

theorem deleteChain_fwd {c : String} {t t' : Table} (hx : (Cmd.deleteChain c).exec t = some t') :
    t'.fwd = t.fwd := by
  simp only [Cmd.exec] at hx
  split at hx
  · cases hx
  · next hc =>
    split at hx
    · cases hx
    · cases hx
      exact Table.fwd_eq_of_rules (by rw [Table.rules_drop, if_neg (Ne.symm hc), Table.rules_forward])

/-- What the jumps left over say about the checks. -/
theorem attached_iff {hooks : List String} {t t' : Table}
    (hplain : ∀ c ∈ hooks, jumpTo c ∈ t'.fwd ↔ Misread fails v6 t c)
    (hrest : ∀ r, (∀ c ∈ hooks, r ≠ jumpTo c) → t'.fwd.count r = t.fwd.count r) :
    ¬ Attached hooks t' ↔ Sound fails v6 hooks t := by
  have hkept : ∀ c, ∀ r, r.target? = some c → r ≠ jumpTo c → (r ∈ t'.fwd ↔ r ∈ t.fwd) := by
    intro c r ht hr
    rw [← List.count_pos_iff, ← List.count_pos_iff, hrest r fun d hd he => hr ?_]
    rw [he] at ht ⊢
    rw [Option.some.inj ht]
  simp only [Attached, Sound, not_exists, not_and]
  refine forall₂_congr fun c hc => ⟨fun h => ⟨fun hm => h _ ((hplain c hc).mpr hm) rfl, fun r hr ht => ?_⟩, ?_⟩
  · by_contra hne
    exact h r ((hkept c r ht hne).mpr hr) ht
  · rintro ⟨hm, hcond⟩ r hr ht
    by_cases hne : r = jumpTo c
    · exact hm ((hplain c hc).mp (hne ▸ hr))
    · exact hne (hcond r ((hkept c r ht hne).mp hr) ht)

/-- The cleanup of one family, by what its answer means. -/
theorem cleanupFam_faulty (fails : Faults) (h : fw.Has v6) (hooks chains : List String) (hnd : hooks.Nodup)
    (hfwd : "FORWARD" ∉ chains) (s : Session) (hfresh : ∀ c ∈ hooks, Fresh v6 c s.issued) :
    ∃ ok s', (fw.cleanupFam v6 hooks chains).eval (faulty fails) s = (ok, s') ∧
      s'.tables.fam (!v6) = s.tables.fam (!v6) ∧
      (∀ d, Fresh (!v6) d s.issued → Fresh (!v6) d s'.issued) ∧
      (ok = false ↔ ∃ c ∈ hooks, Abandoned fails v6 (s.tables.fam v6) c) ∧
      (ok = true → (¬ Attached hooks (s'.tables.fam v6) ↔ Sound fails v6 hooks (s.tables.fam v6))) := by
  obtain ⟨ok, rs, log, hrun, hother, hab, hmis, hcount⟩ := delJumps_faulty fails h hooks s hnd hfresh
  cases ok with
  | false =>
    refine ⟨false, ⟨s.tables.put v6 ((s.tables.fam v6).set "FORWARD" rs), log⟩, ?_, ?_, hother, hab, by simp⟩
    · simp [cleanupFam, hrun]
    · simp
  | true =>
    generalize hs₁ : (⟨s.tables.put v6 ((s.tables.fam v6).set "FORWARD" rs), log⟩ : Session) = s₁ at hrun
    have hflush := each_leaves fails h (f := .flush) chains s₁
      fun c hc t t' => flush_fwd fun he => hfwd (he ▸ hc)
    generalize hs₂ : ((fw.each v6 .flush chains).eval (faulty fails) s₁).2 = s₂ at hflush
    have hdel := each_leaves fails h (f := .deleteChain) chains s₂ fun c _ t t' => deleteChain_fwd
    generalize hs₃ : ((fw.each v6 .deleteChain chains).eval (faulty fails) s₂).2 = s₃ at hdel
    have hf : (s₃.tables.fam v6).fwd = rs := by
      rw [hdel.fwd, hflush.fwd, ← hs₁]
      simp
    refine ⟨true, s₃, by simp [cleanupFam, hrun, hs₂, hs₃], ?_, ?_, hab, fun _ => attached_iff ?_ ?_⟩
    · rw [hdel.other, hflush.other, ← hs₁]
      simp
    · exact fun d hd => hdel.fresh d (hflush.fresh d (hs₁ ▸ hother d hd))
    · rw [hf]
      exact hmis rfl
    · rw [hf]
      exact hcount

/-! ## `cleanup4`, `cleanup6` and `cleanup` -/

/-- The IPv4 cleanup gives up. -/
def GivesUp4 (fails : Faults) (s : Tables) : Prop := ∃ c ∈ hooks4, Abandoned fails false s.v4 c

/-- The IPv6 cleanup gives up; it needs the tool for that. -/
def GivesUp6 (fails : Faults) (fw : Firewall) (s : Tables) : Prop :=
  fw.ip6t.isSome = true ∧ ∃ c ∈ hooks6, Abandoned fails true s.v6 c

/-- Without ip6tables nothing is looked at, and there must be no jump before. -/
def Sound6 (fails : Faults) (fw : Firewall) (s : Tables) : Prop :=
  if fw.ip6t.isSome then Sound fails true hooks6 s.v6 else ¬ Attached hooks6 s.v6

theorem cleanup4_faulty (fails : Faults) (fw : Firewall) (s : Tables) : ∃ ok s',
    fw.cleanup4.eval (faulty fails) ⟨s, []⟩ = (ok, s') ∧ s'.tables.v6 = s.v6 ∧
      (∀ d, Fresh true d s'.issued) ∧ (ok = false ↔ GivesUp4 fails s) ∧
      (ok = true → (¬ Attached hooks4 s'.tables.v4 ↔ Sound fails false hooks4 s.v4)) := by
  have h4 : fw.Has false := fun h => absurd h Bool.false_ne_true
  obtain ⟨ok, s', hrun, hv6, hfresh, hab, hsound⟩ := cleanupFam_faulty fails h4 hooks4 chains4
    (by decide) (by decide) ⟨s, []⟩ fun _ _ => ⟨List.not_mem_nil, List.not_mem_nil⟩
  exact ⟨ok, s', hrun, hv6, fun d => hfresh d ⟨List.not_mem_nil, List.not_mem_nil⟩, hab, hsound⟩

theorem cleanup6_faulty (fails : Faults) (fw : Firewall) (s : Session) (hfresh : ∀ d, Fresh true d s.issued) :
    ∃ ok s', fw.cleanup6.eval (faulty fails) s = (ok, s') ∧ s'.tables.v4 = s.tables.v4 ∧
      (ok = false ↔ GivesUp6 fails fw s.tables) ∧
      (ok = true → (¬ Attached hooks6 s'.tables.v6 ↔ Sound6 fails fw s.tables)) := by
  cases hip : fw.ip6t with
  | none => exact ⟨true, s, by simp [cleanup6, hip], rfl, by simp [GivesUp6, hip], by simp [Sound6, hip]⟩
  | some path =>
    have h6 : fw.Has true := fun _ => by simp [hip]
    obtain ⟨ok, s', hrun, hv4, -, hab, hsound⟩ :=
    cleanupFam_faulty fails h6 hooks6 chains6 (by decide) (by decide) s fun d _ => hfresh d
    refine ⟨ok, s', by simpa [cleanup6, hip] using hrun, hv4, ?_, ?_⟩
    · simp only [GivesUp6, hip, Option.isSome_some, true_and]
      exact hab
    · simp only [Sound6, hip, Option.isSome_some, if_true]
      exact hsound

/-- **When a cleanup's success is true.** Whatever the tables and whichever commands
fail, the answer true of `cleanup4` means that no rule of `FORWARD` leads to one of
its chains exactly when the call gives up, so that the answer is false, or no check
fails while a jump is left and only plain jumps lead to those chains; so for
`cleanup6`, and for `cleanup` of both. -/
theorem cleanup_true_iff (fails : Faults) (fw : Firewall) (s : Tables) :
    (((fw.cleanup4.eval (faulty fails) ⟨s, []⟩).1 = true →
        ¬ Attached hooks4 (fw.cleanup4.eval (faulty fails) ⟨s, []⟩).2.tables.v4) ↔
      GivesUp4 fails s ∨ Sound fails false hooks4 s.v4) ∧
    (((fw.cleanup6.eval (faulty fails) ⟨s, []⟩).1 = true →
        ¬ Attached hooks6 (fw.cleanup6.eval (faulty fails) ⟨s, []⟩).2.tables.v6) ↔
      GivesUp6 fails fw s ∨ Sound6 fails fw s) ∧
    (((fw.cleanup.eval (faulty fails) ⟨s, []⟩).1 = true →
        ¬ Attached hooks4 (fw.cleanup.eval (faulty fails) ⟨s, []⟩).2.tables.v4 ∧
        ¬ Attached hooks6 (fw.cleanup.eval (faulty fails) ⟨s, []⟩).2.tables.v6) ↔
      (GivesUp4 fails s ∨ GivesUp6 fails fw s) ∨ Sound fails false hooks4 s.v4 ∧ Sound6 fails fw s) := by
  obtain ⟨ok4, s4, hrun4, hv6, hfresh, hab4, hsound4⟩ := cleanup4_faulty fails fw s
  refine ⟨?_, ?_, ?_⟩
  · rw [← hab4, hrun4]
    cases ok4 with
    | false => simp
    | true => simpa using hsound4 rfl
  · obtain ⟨ok6, s6, hrun6, -, hab6, hsound6⟩ := cleanup6_faulty fails fw ⟨s, []⟩
      fun _ => ⟨List.not_mem_nil, List.not_mem_nil⟩
    rw [← hab6, hrun6]
    cases ok6 with
    | false => simp
    | true => simpa using hsound6 rfl
  · obtain ⟨ok6, s6, hrun6, hv4, hab6, hsound6⟩ := cleanup6_faulty fails fw s4 hfresh
    have hgive : GivesUp6 fails fw s4.tables ↔ GivesUp6 fails fw s := by simp only [GivesUp6, hv6]
    have hsnd : Sound6 fails fw s4.tables ↔ Sound6 fails fw s := by simp only [Sound6, hv6]
    rw [← hab4, ← hgive, ← hab6, ← hsnd]
    cases ok4 with
    | false => simp [cleanup, hrun4]
    | true =>
      cases ok6 with
      | false => simp [cleanup, hrun4, hrun6]
      | true => simp [cleanup, hrun4, hrun6, ← hsound4 rfl, ← hsound6 rfl, hv4]

/-- A table with the hook jump in `FORWARD`, and a first check of it that times out. -/
def hooked : Tables := ⟨Table.bare.set "FORWARD" [jumpTo chainHook], Table.bare⟩

def timedOut : Faults := fun v6 x n => !v6 && decide (x = checkOf chainHook) && n == 0

/-- The check that times out reads as "no jump left": the answer is true, and the
jump is still there. -/
theorem cleanup_true_attached : ¬ ∀ (fails : Faults) (fw : Firewall) (s : Tables),
    (fw.cleanup4.eval (faulty fails) ⟨s, []⟩).1 = true →
      ¬ Attached hooks4 (fw.cleanup4.eval (faulty fails) ⟨s, []⟩).2.tables.v4 := by
  intro h
  exact h timedOut ⟨none⟩ hooked (by decide +kernel) (by decide +kernel)

end Firewall

end Nfqttl
