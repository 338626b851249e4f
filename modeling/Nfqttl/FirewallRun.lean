/-
What the functions of `firewall.rs` do when every command follows its semantics:
one equation a function, from the tables before to the tables after.
-/
import Nfqttl.Firewall

namespace Nfqttl

open Effect

theorem space_notMem_hook (v6 : Bool) : ' ' ∉ (hookOf v6).toList := by cases v6 <;> decide

theorem hook_ne_forward (v6 : Bool) : hookOf v6 ≠ "FORWARD" := by cases v6 <;> decide

namespace Firewall

variable {fw : Firewall} {v6 : Bool}

/-- The tool of the family is there. -/
def Has (fw : Firewall) (v6 : Bool) : Prop := v6 = true → fw.ip6t.isSome

theorem run_eq (h : fw.Has v6) (cmd : Cmd) : fw.run v6 cmd = runCmd v6 cmd := by
  cases v6 with
  | false => rfl
  | true => obtain ⟨p, hp⟩ := Option.isSome_iff_exists.mp (h rfl); simp [run, ip6, hp]

theorem out_eq (h : fw.Has v6) (c : String) : fw.out v6 c = showChain v6 c := by
  cases v6 with
  | false => rfl
  | true => obtain ⟨p, hp⟩ := Option.isSome_iff_exists.mp (h rfl); simp [out, out6, hp]

theorem run_ok (h : fw.Has v6) {x : Cmd} {s : Tables} {t : Table} (hx : x.exec (s.fam v6) = some t) :
    (fw.run v6 x).eval iptables s = (true, s.put v6 t) := by
  rw [run_eq h]
  simp [runCmd, iptables, hx]

theorem run_fail (h : fw.Has v6) {x : Cmd} {s : Tables} (hx : x.exec (s.fam v6) = none) :
    (fw.run v6 x).eval iptables s = (false, s) := by
  rw [run_eq h]
  simp [runCmd, iptables, hx]

theorem out_run (h : fw.Has v6) (c : String) (s : Tables) :
    (fw.out v6 c).eval iptables s = ((s.fam v6).listing c, s) := by
  rw [out_eq h]
  simp [showChain, iptables]

/-! ## Listings -/

theorem ruleLines_listing (t : Table) (c : String) :
    ruleLines (t.listing c) = ((t.rules c).getD []).map (ruleLine c) := by
  have hchain : "-A ".toList.isPrefixOf (chainLine c).toList = false := by
    unfold chainLine
    split <;> simp [String.toList_append, List.isPrefixOf]
  have hrule : ∀ r, "-A ".toList.isPrefixOf (ruleLine c r).toList = true := by
    intro r
    simp [ruleLine, String.toList_append]
  unfold Table.listing ruleLines
  cases t.rules c with
  | none => rfl
  | some rs =>
    rw [List.filter_cons_of_neg (by rw [hchain]; exact Bool.false_ne_true), List.filter_eq_self.mpr]
    · rfl
    · intro l hl
      obtain ⟨r, -, rfl⟩ := List.mem_map.mp hl
      exact hrule r

/-- `FORWARD` begins with the one jump to the hook chain. -/
def HookFirst (v6 : Bool) (t : Table) : Prop :=
  ∃ rest, t.fwd = jumpTo (hookOf v6) :: rest ∧ jumpTo (hookOf v6) ∉ rest

theorem firstOnly_map {rule : String} {f : Rule → String} {j : Rule} (hf : ∀ r, f r = rule ↔ r = j)
    (rs : List Rule) : firstOnly rule (rs.map f) = true ↔ ∃ rest, rs = j :: rest ∧ j ∉ rest := by
  cases rs with
  | nil => simp [firstOnly]
  | cons r rs =>
    simp only [List.map_cons, firstOnly, Bool.and_eq_true, beq_iff_eq, List.length_eq_zero_iff,
      List.filter_eq_nil_iff, List.mem_map, forall_exists_index, and_imp, forall_apply_eq_imp_iff₂, hf,
      List.cons.injEq]
    constructor
    · rintro ⟨rfl, h⟩
      exact ⟨rs, ⟨rfl, rfl⟩, fun hm => h r hm rfl⟩
    · rintro ⟨rest, ⟨rfl, rfl⟩, h⟩
      exact ⟨rfl, fun x hx he => h (he ▸ hx)⟩

/-- What `hook_ok` reads off the listing of `FORWARD`. -/
theorem firstOnly_listing (v6 : Bool) (t : Table) :
    firstOnly ("-A FORWARD -j " ++ hookOf v6) (ruleLines (t.listing "FORWARD")) = true ↔ HookFirst v6 t := by
  have hf : ∀ r, ruleLine "FORWARD" r = "-A FORWARD -j " ++ hookOf v6 ↔ r = jumpTo (hookOf v6) := by
    intro r
    rw [← ruleLine_eq_jump (space_notMem_hook v6)]
    rfl
  rw [ruleLines_listing, t.rules_forward]
  exact firstOnly_map hf t.fwd

theorem hookOk_run (h : fw.Has v6) (s : Tables) :
    ((fw.hookOk v6).eval iptables s).2 = s ∧
      (((fw.hookOk v6).eval iptables s).1 = true ↔ HookFirst v6 (s.fam v6)) := by
  simp only [hookOk, Prog.eval_bind, out_run h]
  exact ⟨rfl, firstOnly_listing v6 _⟩

/-- What `rules_ok` reads off the three listings. -/
theorem rulesOk_run (h : fw.Has v6) (c : String) (links : Links) (kernel : Bool) (workers value : Nat)
    (mode : V6Mode) (s : Tables) :
    ((fw.rulesOk v6 (some c) links kernel workers value mode).eval iptables s).2 = s ∧
      (((fw.rulesOk v6 (some c) links kernel workers value mode).eval iptables s).1 = true ↔
        HookFirst v6 (s.fam v6) ∧
        ruleLines ((s.fam v6).listing (hookOf v6)) = ["-A " ++ hookOf v6 ++ " -j " ++ c] ∧
        ruleLines ((s.fam v6).listing c) = expected c links (tail v6 kernel workers value mode)) := by
  obtain ⟨hsame, hiff⟩ := hookOk_run h s
  cases hfirst : ((fw.hookOk v6).eval iptables s).1 with
  | false => simp [rulesOk, hsame, hfirst, ← hiff]
  | true =>
    by_cases hhook : ruleLines ((s.fam v6).listing (hookOf v6)) = ["-A " ++ hookOf v6 ++ " -j " ++ c]
    · simp [rulesOk, hsame, hfirst, ← hiff, out_run h, hhook]
    · simp [rulesOk, hsame, hfirst, ← hiff, out_run h, hhook]

/-- The hook chain lists as the one jump to `c` when it is that. -/
theorem hook_listing {c : String} (hc : ' ' ∉ c.toList) (t : Table) :
    ruleLines (t.listing (hookOf v6)) = ["-A " ++ hookOf v6 ++ " -j " ++ c] ↔
      t.rules (hookOf v6) = some [jumpTo c] := by
  rw [ruleLines_listing, List.map_eq_singleton_iff]
  simp only [ruleLine_eq_jump hc, exists_eq_right]
  cases t.rules (hookOf v6) <;> simp

/-! ## Removing jumps -/

theorem exec_check_forward (t : Table) (r : Rule) :
    (Cmd.check "FORWARD" r).exec t = if t.fwd.contains r then some t else none := by
  simp [Cmd.exec, t.rules_forward]

theorem exec_delete_forward {t : Table} {r : Rule} (h : r ∈ t.fwd) :
    (Cmd.delete "FORWARD" r).exec t = some (t.set "FORWARD" (t.fwd.erase r)) := by
  simp [Cmd.exec, t.rules_forward, h]

theorem iterate_erase_of_notMem {r : Rule} {l : List Rule} (h : r ∉ l) (n : Nat) :
    (fun l => l.erase r)^[n] l = l := by
  induction n with
  | zero => rfl
  | succ n ih => rw [Function.iterate_succ_apply, List.erase_of_not_mem h, ih]

theorem count_erase_add_one {r : Rule} {l : List Rule} (h : r ∈ l) : (l.erase r).count r + 1 = l.count r := by
  have hpos := List.count_pos_iff.mpr h
  rw [List.count_erase_self]
  omega

theorem count_iterate_erase_self {r : Rule} : ∀ (m : Nat) (l : List Rule),
    ((fun l => l.erase r)^[m] l).count r = l.count r - m
  | 0, _ => rfl
  | m + 1, l => by
    rw [Function.iterate_succ_apply, count_iterate_erase_self m, List.count_erase_self]
    omega

/-- `del_jump` with `n` rounds takes out the first `n` jumps, and answers whether
a round was left to see that none remains. -/
theorem delJumpLoop_run (h : fw.Has v6) (c : String) : ∀ (n : Nat) (s : Tables),
    (fw.delJumpLoop v6 "FORWARD" c n).eval iptables s =
      (decide ((s.fam v6).fwd.count (jumpTo c) < n),
        s.put v6 ((s.fam v6).set "FORWARD" ((fun l => l.erase (jumpTo c))^[n] (s.fam v6).fwd)))
  | 0, s => by simp [delJumpLoop, Table.set_rules (Table.rules_forward _)]
  | n + 1, s => by
    by_cases hm : jumpTo c ∈ (s.fam v6).fwd
    · have hcheck := run_ok h (s := s) (x := .check "FORWARD" (jumpTo c)) (t := s.fam v6)
        (by simp [exec_check_forward, hm])
      have hdel := run_ok h (s := s) (exec_delete_forward hm)
      have hcount := count_erase_add_one hm
      simp only [delJumpLoop, Prog.eval_bind, hcheck, Tables.put_fam, Bool.not_true, Bool.false_eq_true, if_false,
        hdel, delJumpLoop_run h c n, Tables.fam_put, Tables.put_put, Table.fwd_set_forward, Table.set_set,
        Function.iterate_succ_apply, ← hcount, Nat.add_lt_add_iff_right]
    · have hcheck := run_fail h (s := s) (x := .check "FORWARD" (jumpTo c))
        (by simp [exec_check_forward, hm])
      simp [delJumpLoop, hcheck, List.count_eq_zero.mpr hm, iterate_erase_of_notMem hm,
        Table.set_rules (Table.rules_forward _)]

/-- The rules that are not the plain jump to `c`. -/
def dropJumps (c : String) (rs : List Rule) : List Rule := rs.filter (· ≠ jumpTo c)

theorem dropJumps_of_notMem {c : String} {rs : List Rule} (h : jumpTo c ∉ rs) : dropJumps c rs = rs :=
  List.filter_eq_self.mpr fun r hr => by simpa using fun he : r = jumpTo c => h (he ▸ hr)

@[simp] theorem dropJumps_cons_self (c : String) (rs : List Rule) :
    dropJumps c (jumpTo c :: rs) = dropJumps c rs := by simp [dropJumps]

theorem dropJumps_cons_ne {c : String} {r : Rule} (rs : List Rule) (h : r ≠ jumpTo c) :
    dropJumps c (r :: rs) = r :: dropJumps c rs := by simp [dropJumps, h]

theorem dropJumps_erase (c : String) : ∀ rs : List Rule, dropJumps c (rs.erase (jumpTo c)) = dropJumps c rs
  | [] => rfl
  | r :: rs => by
    by_cases hr : r = jumpTo c
    · subst hr; simp
    · rw [List.erase_cons_tail (by simpa using hr), dropJumps_cons_ne _ hr, dropJumps_cons_ne _ hr,
        dropJumps_erase c rs]

theorem iterate_erase_jump {c : String} : ∀ {n : Nat} {rs : List Rule}, rs.count (jumpTo c) ≤ n →
    (fun l => l.erase (jumpTo c))^[n] rs = dropJumps c rs
  | 0, rs, hn => by
    rw [Function.iterate_zero_apply, dropJumps_of_notMem (List.count_eq_zero.mp (by omega))]
  | n + 1, rs, hn => by
    rw [Function.iterate_succ_apply, iterate_erase_jump (by rw [List.count_erase_self]; omega), dropJumps_erase]

theorem delJump_run (h : fw.Has v6) (c : String) (s : Tables)
    (hc : (s.fam v6).fwd.count (jumpTo c) ≤ 15) :
    (fw.delJump v6 "FORWARD" c).eval iptables s =
      (true, s.put v6 ((s.fam v6).set "FORWARD" (dropJumps c (s.fam v6).fwd))) := by
  rw [delJump, delJumpLoop_run h, iterate_erase_jump (by omega)]
  simp only [Prod.mk.injEq, decide_eq_true_eq, and_true]
  omega

theorem dropJumps_iterate (c : String) : ∀ (n : Nat) (rs : List Rule),
    dropJumps c ((fun l => l.erase (jumpTo c))^[n] rs) = dropJumps c rs
  | 0, _ => rfl
  | n + 1, rs => by rw [Function.iterate_succ_apply, dropJumps_iterate c n, dropJumps_erase]

theorem iterate_erase_sublist (r : Rule) : ∀ (n : Nat) (rs : List Rule),
    List.Sublist ((fun l => l.erase r)^[n] rs) rs
  | 0, rs => List.Sublist.refl rs
  | n + 1, rs => (iterate_erase_sublist r n (rs.erase r)).trans List.erase_sublist

/-- Rules that lead to `c` but are not the plain jump to it, which `del_jump` does not look for. -/
def OtherJump (c : String) (rs : List Rule) : Prop := ∃ r ∈ rs, r ≠ jumpTo c ∧ r.target? = some c

theorem otherJump_iff {c : String} {rs : List Rule} : OtherJump c rs ↔ ∃ r ∈ dropJumps c rs, r.target? = some c := by
  simp only [OtherJump, dropJumps, List.mem_filter, decide_eq_true_eq, and_assoc]

/-- No rule leads to `c` if there is no jump to it, plain or not. -/
theorem no_target_iff {c : String} {rs : List Rule} :
    (∀ r ∈ rs, r.target? ≠ some c) ↔ jumpTo c ∉ rs ∧ ¬ OtherJump c rs := by
  refine ⟨?_, ?_⟩
  · intro h
    refine ⟨fun hm => h _ hm rfl, ?_⟩
    intro hother
    obtain ⟨r, hr, -, ht⟩ := hother
    exact h r hr ht
  · intro h r hr ht
    by_cases hj : r = jumpTo c
    · exact h.1 (hj ▸ hr)
    · exact h.2 ⟨r, hr, hj, ht⟩

/-- `del_jump` takes out the first 16 jumps to `c` and keeps every other rule in its place. It
answers whether no jump is left, except for exactly 16: these are removed, and the answer is
no. It does not look at other rules that lead to `c`; when these count as well, the answer is
right if there are none and not 16 jumps, or if something is left and it says so. -/
theorem delJump_reports (h : fw.Has v6) (c : String) (s : Tables) :
    ∃ ok rs, (fw.delJump v6 "FORWARD" c).eval iptables s = (ok, s.put v6 ((s.fam v6).set "FORWARD" rs)) ∧
      rs.Sublist (s.fam v6).fwd ∧ dropJumps c rs = dropJumps c (s.fam v6).fwd ∧
      ((ok = true ↔ jumpTo c ∉ rs) ↔ (s.fam v6).fwd.count (jumpTo c) ≠ 16) ∧
      ((ok = true ↔ ∀ r ∈ rs, r.target? ≠ some c) ↔
        (s.fam v6).fwd.count (jumpTo c) < 16 ∧ ¬ OtherJump c (s.fam v6).fwd ∨
        (s.fam v6).fwd.count (jumpTo c) = 16 ∧ OtherJump c (s.fam v6).fwd ∨
        16 < (s.fam v6).fwd.count (jumpTo c)) := by
  have hdrop := dropJumps_iterate c 16 (s.fam v6).fwd
  have hcount := count_iterate_erase_self (r := jumpTo c) 16 (s.fam v6).fwd
  have hother : OtherJump c ((fun l => l.erase (jumpTo c))^[16] (s.fam v6).fwd) ↔ OtherJump c (s.fam v6).fwd := by
    rw [otherJump_iff, otherJump_iff, hdrop]
  refine ⟨_, _, delJumpLoop_run h c 16 s, iterate_erase_sublist _ 16 _, hdrop, ?_, ?_⟩
  · rw [decide_eq_true_eq, ← List.count_eq_zero, hcount]
    omega
  · rw [decide_eq_true_eq, no_target_iff, hother, ← List.count_eq_zero, hcount]
    by_cases ho : OtherJump c (s.fam v6).fwd
    · simp only [ho, not_true_eq_false, and_false, iff_false, and_true, false_or]
      omega
    · simp only [ho, not_false_eq_true, and_true, and_false, false_or]
      omega

/-- Two jumps around a rule with a match. -/
theorem delJump_reports_around :
    let s : Tables := ⟨Table.bare.set "FORWARD"
      [jumpTo chainHook, ⟨[⟨.i, "wlan2"⟩], .jump "ACCEPT" []⟩, jumpTo chainHook], .bare⟩
    ∃ ok rs, ((⟨none⟩ : Firewall).delJump false "FORWARD" chainHook).eval iptables s =
      (ok, s.put false (s.v4.set "FORWARD" rs)) ∧ (ok = true ↔ jumpTo chainHook ∉ rs) := by
  intro s
  have hhas : Has ⟨none⟩ false := fun h => by cases h
  obtain ⟨ok, rs, hrun, -, -, hiff, -⟩ := delJump_reports hhas chainHook s
  exact ⟨ok, rs, hrun, hiff.mpr (by rw [show s.fam false = s.v4 from rfl, Table.fwd_set_forward]; decide)⟩

/-- With 16 jumps all are removed, and the answer is that they are not. -/
theorem delJump_sixteen :
    let s : Tables := ⟨Table.bare.set "FORWARD" (List.replicate 16 (jumpTo chainHook)), .bare⟩
    let r := ((⟨none⟩ : Firewall).delJump false "FORWARD" chainHook).eval iptables s
    r.1 = false ∧ jumpTo chainHook ∉ (r.2.fam false).fwd := by
  intro s r
  have hhas : Has ⟨none⟩ false := fun h => by cases h
  have hfwd : (s.fam false).fwd = List.replicate 16 (jumpTo chainHook) := Table.fwd_set_forward ..
  have hrun : r = _ := delJumpLoop_run hhas chainHook 16 s
  rw [hrun, Tables.fam_put, Table.fwd_set_forward, hfwd, List.count_replicate_self, ← List.count_eq_zero,
    count_iterate_erase_self, List.count_replicate_self]
  exact ⟨rfl, rfl⟩

/-! ## The commands of an installation -/

/-- The commands of `rewire`. -/
def rewires (v6 : Bool) (new : String) : List Cmd :=
  [.new (hookOf v6), .replace (hookOf v6) 1 (jumpTo new), .flush (hookOf v6), .append (hookOf v6) (jumpTo new)]

/-- The commands of `trim` and `attach`. -/
def attaches (v6 : Bool) : List Cmd :=
  [.deleteNum (hookOf v6) 2, .check "FORWARD" (jumpTo (hookOf v6)), .delete "FORWARD" (jumpTo (hookOf v6)),
    .insert "FORWARD" 1 (jumpTo (hookOf v6))]

/-- The commands of `cleanupFam`. -/
def cleans (hooks chains : List String) : List Cmd :=
  (hooks.flatMap fun c => [.check "FORWARD" (jumpTo c), .delete "FORWARD" (jumpTo c)]) ++
    chains.flatMap fun c => [.flush c, .deleteChain c]

/-- An operation on the tables of a family that issues no command but those of `xs`. -/
def Among (v6 : Bool) (xs : List Cmd) : FwOp → Prop
  | .run v x => v = v6 ∧ x ∈ xs
  | .show v _ => v = v6

section among
variable {xs : List Cmd}

theorem run_among {x : Cmd} (hx : x ∈ xs) : Within (Among v6 xs) (fun _ => True) (fw.run v6 x) := by
  cases v6 with
  | false => exact ⟨⟨rfl, hx⟩, fun _ => trivial⟩
  | true =>
    cases hp : fw.ip6t with
    | none => simp [run, ip6, hp]
    | some p =>
      simp only [run, ip6, hp, if_true]
      exact ⟨⟨rfl, hx⟩, fun _ => trivial⟩

theorem out_among {c : String} : Within (Among v6 xs) (fun _ => True) (fw.out v6 c) := by
  cases v6 with
  | false => exact ⟨rfl, fun _ => trivial⟩
  | true => cases hp : fw.ip6t <;> simp [out, out6, hp, showChain, Among]

theorem hookOk_among : Within (Among v6 xs) (fun _ => True) (fw.hookOk v6) := out_among.seq fun _ => trivial

theorem rewire_among {new : String} (h : rewires v6 new ⊆ xs) (active : Option String) :
    Within (Among v6 xs) (fun _ => True) (fw.rewire v6 new active) := by
  obtain ⟨hnew, hreplace, hflush, happend⟩ : _ ∧ _ ∧ _ ∧ _ := by simpa [rewires] using h
  have hrefill : Within (Among v6 xs) (fun _ => True) (do
      if !(← fw.run v6 (.flush (hookOf v6))) then return false
      fw.run v6 (.append (hookOf v6) (jumpTo new))) := by
    refine (run_among hflush).seq fun flushed => ?_
    cases flushed with
    | false => trivial
    | true => exact run_among happend
  refine (run_among hnew).seq fun _ => ?_
  cases active with
  | none => exact hrefill
  | some old =>
    refine (run_among hreplace).seq fun replaced => ?_
    cases replaced with
    | true => trivial
    | false => exact hrefill

theorem trimHook_among (h : .deleteNum (hookOf v6) 2 ∈ xs) : ∀ n,
    Within (Among v6 xs) (fun _ => True) (fw.trimHook v6 n)
  | 0 => trivial
  | n + 1 => by
    refine (run_among h).seq fun deleted => ?_
    cases deleted with
    | false => trivial
    | true => exact trimHook_among h n

theorem delJumpLoop_among {parent c : String} (hcheck : .check parent (jumpTo c) ∈ xs)
    (hdelete : .delete parent (jumpTo c) ∈ xs) : ∀ n,
    Within (Among v6 xs) (fun _ => True) (fw.delJumpLoop v6 parent c n)
  | 0 => trivial
  | n + 1 => by
    refine (run_among hcheck).seq fun exist => ?_
    cases exist with
    | false => trivial
    | true =>
      refine (run_among hdelete).seq fun deleted => ?_
      cases deleted with
      | false => trivial
      | true => exact delJumpLoop_among hcheck hdelete n

/-- What `activate` does once the hook chain is rewired. -/
theorem trim_among (h : attaches v6 ⊆ xs) : Within (Among v6 xs) (fun _ => True) (do
    if !(← fw.trim v6) then return false
    fw.attach v6) := by
  obtain ⟨hnum, hcheck, hdelete, hinsert⟩ : _ ∧ _ ∧ _ ∧ _ := by simpa [attaches] using h
  refine (out_among.seq fun _ => trimHook_among hnum _).seq fun trimmed => ?_
  cases trimmed
  case false => trivial
  refine hookOk_among.seq fun first => ?_
  cases first with
  | true => trivial
  | false =>
    refine (delJumpLoop_among hcheck hdelete _).seq fun deleted => ?_
    cases deleted with
    | false => trivial
    | true => exact run_among hinsert

theorem activate_among {new : String} (hrewire : rewires v6 new ⊆ xs) (hattach : attaches v6 ⊆ xs)
    (active : Option String) : Within (Among v6 xs) (fun _ => True) (fw.activate v6 new active) := by
  refine (rewire_among hrewire active).seq fun rewired => ?_
  cases rewired with
  | false => trivial
  | true => exact trim_among hattach

theorem retire_among {active : Option String} (h : active.toList.map .flush ⊆ xs) :
    Within (Among v6 xs) (fun _ => True) (fw.retire v6 active) := by
  cases active with
  | none => trivial
  | some old => exact (run_among (by simpa using h)).seq fun _ => trivial

theorem delJumps_among : ∀ cs : List String,
    (∀ c ∈ cs, .check "FORWARD" (jumpTo c) ∈ xs ∧ .delete "FORWARD" (jumpTo c) ∈ xs) →
    Within (Among v6 xs) (fun _ => True) (fw.delJumps v6 cs)
  | [], _ => trivial
  | c :: cs, h => by
    obtain ⟨⟨hcheck, hdelete⟩, hcs⟩ := List.forall_mem_cons.mp h
    refine (delJumpLoop_among hcheck hdelete _).seq fun deleted => ?_
    cases deleted with
    | false => trivial
    | true => exact delJumps_among cs hcs

theorem each_among {cmd : String → Cmd} : ∀ cs : List String, (∀ c ∈ cs, cmd c ∈ xs) →
    Within (Among v6 xs) (fun _ => True) (fw.each v6 cmd cs)
  | [], _ => trivial
  | c :: cs, h => by
    obtain ⟨hc, hcs⟩ := List.forall_mem_cons.mp h
    exact (run_among hc).seq fun _ => each_among cs hcs

theorem cleanupFam_among (hooks chains : List String) :
    Within (Among v6 (cleans hooks chains)) (fun _ => True) (fw.cleanupFam v6 hooks chains) := by
  have hjumps : ∀ c ∈ hooks, .check "FORWARD" (jumpTo c) ∈ cleans hooks chains ∧
      .delete "FORWARD" (jumpTo c) ∈ cleans hooks chains := by
    intro c hc
    refine ⟨List.mem_append_left _ (List.mem_flatMap.mpr ⟨c, hc, ?_⟩),
      List.mem_append_left _ (List.mem_flatMap.mpr ⟨c, hc, ?_⟩)⟩ <;> simp
  refine (delJumps_among hooks hjumps).seq fun deleted => ?_
  cases deleted with
  | false => trivial
  | true =>
    refine (each_among chains fun c hc => by simp [cleans, hc]).seq fun _ => ?_
    exact (each_among chains fun c hc => by simp [cleans, hc]).seq fun _ => trivial

end among

/-! ## What is left alone -/

/-- The chains that commands of `xs` do not name stay as they are, and so does the other table. -/
theorem eval_frame {α : Type} {xs : List Cmd} {p : Prog FwSig α} (hp : Within (Among v6 xs) (fun _ => True) p)
    (s : Tables) : (∀ c, c ∉ xs.map Cmd.chain → ((p.eval iptables s).2.fam v6).rules c = (s.fam v6).rules c) ∧
      (p.eval iptables s).2.fam (!v6) = s.fam (!v6) := by
  have hkeeps := hp.keeps (R := iptables.sem) (I := fun s' : Tables =>
    (∀ c, c ∉ xs.map Cmd.chain → (s'.fam v6).rules c = (s.fam v6).rules c) ∧ s'.fam (!v6) = s.fam (!v6)) ?_
    ⟨fun _ _ => rfl, rfl⟩
  · exact (hkeeps.runs (Prog.runs_eval p s)).1
  intro o s₁ a s₂ ho hi hr
  cases o with
  | «show» v c =>
    cases hr
    exact hi
  | run v x =>
    obtain ⟨rfl, hx⟩ := ho
    simp only [Handler.sem, iptables] at hr
    cases he : x.exec (s₁.fam v) with
    | none =>
      simp only [he] at hr
      cases hr
      exact hi
    | some t =>
      simp only [he] at hr
      cases hr
      refine ⟨?_, by rw [Tables.fam_put_not, hi.2]⟩
      intro c hc
      have hne : c ≠ x.chain := by
        rintro rfl
        exact hc (List.mem_map_of_mem hx)
      rw [Tables.fam_put, Cmd.exec_frame he hne, hi.1 c hc]

end Firewall

end Nfqttl
