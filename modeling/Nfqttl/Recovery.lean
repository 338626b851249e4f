/-
How the daemon gives way: the failure count, the workers it degrades to and the wait of a
recovery, over any sequence of recoveries and of the resets a stable minute brings.
-/
import Nfqttl.ConfigBounds
import Nfqttl.Retry

namespace Nfqttl.Daemon

open Effect

/-- What moves the counters: a recovery, or a minute without one. -/
inductive Beat
  | recover
  | stable
  deriving DecidableEq, Repr

/-- `failures` and `active_workers`. -/
structure Health where
  failures : Nat
  workers : Nat
  deriving DecidableEq, Repr

/-- The counters the loop has. -/
def Loop.health (l : Loop) : Health := ⟨l.failures, l.activeWorkers⟩

namespace Health

def step (c : Config) (h : Health) : Beat → Health
  | .recover => ⟨(backoff c h.failures h.workers).1, (backoff c h.failures h.workers).2.1⟩
  | .stable => { h with failures := 0 }

def run (c : Config) (h : Health) (bs : List Beat) : Health := bs.foldl (step c) h

/-- How many tenths of a second a recovery waits at most. -/
def tenths (c : Config) (h : Health) : Nat := min (backoff c h.failures h.workers).2.2 60 * 10

/-- The ranges of the loader that the counters depend on. -/
structure Tuned (c : Config) : Prop where
  failures : 1 ≤ c.maxFailures ∧ c.maxFailures ≤ 20
  workers : 1 ≤ c.workers ∧ c.workers ≤ 8
  cooldown : c.cooldown ≤ 60

theorem tuned_load (text : Option (List Char)) : Tuned (Config.load text) := by
  have hheld := (Config.load_held text).numbers
  have hfailures := hheld .maxFailures rfl _ _ rfl
  have hworkers := hheld .workers rfl _ _ rfl
  have hcooldown := hheld .cooldown rfl _ _ rfl
  simp only [Setting.number] at hfailures hworkers hcooldown
  refine ⟨⟨?_, ?_⟩, ⟨?_, ?_⟩, ?_⟩ <;> omega

section
variable {c : Config} {h : Health} {w : Nat}

/-! ## One recovery -/

/-- Below the limit a recovery only counts. -/
theorem step_count (hlim : min (h.failures + 1) 255 < c.maxFailures) :
    h.step c .recover = ⟨min (h.failures + 1) 255, h.workers⟩ := by
  simp only [step, backoff]
  rw [if_neg (by omega)]

/-- At the limit it halves the workers, rounding up, and counts from 0 again. -/
theorem step_halve (hlim : c.maxFailures ≤ min (h.failures + 1) 255) (hw : 1 < h.workers) :
    h.step c .recover = ⟨0, (h.workers + 1) / 2⟩ := by
  simp only [step, backoff]
  rw [if_pos hlim, if_pos hw]

/-- One worker is not given up. -/
theorem step_last (hw : h.workers ≤ 1) : h.step c .recover = ⟨min (h.failures + 1) 255, h.workers⟩ := by
  simp only [step, backoff]
  rw [if_neg (by omega : ¬ h.workers > 1)]
  split <;> rfl

/-- What holds between the beats. -/
structure Sane (c : Config) (w : Nat) (h : Health) : Prop where
  some : 1 ≤ h.workers
  most : h.workers ≤ w
  below : 1 < h.workers → h.failures < c.maxFailures
  byte : h.failures ≤ 255

/-- With more than one worker a recovery leaves the count below the limit. -/
theorem step_below (hc : Tuned c) (hw : 1 < h.workers) : (h.step c .recover).failures < c.maxFailures := by
  have hmax := hc.failures
  by_cases hlim : min (h.failures + 1) 255 < c.maxFailures
  · rw [step_count hlim]
    exact hlim
  · rw [step_halve (by omega) hw]
    exact hmax.1

theorem step_workers (b : Beat) : (h.step c b).workers ≤ h.workers := by
  cases b with
  | stable => exact Nat.le_refl _
  | recover =>
    by_cases hw : 1 < h.workers
    · by_cases hlim : min (h.failures + 1) 255 < c.maxFailures
      · rw [step_count hlim]
      · rw [step_halve (by omega) hw]
        simp only
        omega
    · rw [step_last (by omega)]

theorem Sane.step (hs : Sane c w h) (hc : Tuned c) (b : Beat) : Sane c w (h.step c b) := by
  have hmax := hc.failures
  have hle := step_workers (c := c) (h := h) b
  have hmost := hs.most
  have hsome := hs.some
  have hbyte := hs.byte
  cases b with
  | stable => exact ⟨hsome, hmost, fun _ => by simp only [Health.step]; omega, Nat.zero_le _⟩
  | recover =>
    refine ⟨?_, hle.trans hmost, fun hw => step_below hc (hw.trans_le hle), ?_⟩
    · by_cases hw : 1 < h.workers
      · by_cases hlim : min (h.failures + 1) 255 < c.maxFailures
        · rw [step_count hlim]
          exact hsome
        · rw [step_halve (by omega) hw]
          simp only
          omega
      · rw [step_last (by omega)]
        exact hsome
    · by_cases hw : 1 < h.workers
      · have hbelow := step_below hc hw
        omega
      · rw [step_last (by omega)]
        exact Nat.min_le_right _ _

/-! ## Runs -/

theorem Sane.run (hs : Sane c w h) (hc : Tuned c) (bs : List Beat) : Sane c w (h.run c bs) := by
  induction bs generalizing h with
  | nil => exact hs
  | cons b bs ih => exact ih (hs.step hc b)

theorem run_append (h : Health) (bs bs' : List Beat) : h.run c (bs ++ bs') = (h.run c bs).run c bs' := List.foldl_append

/-- The one worker left stays. -/
theorem run_last : ∀ (n : Nat) {h : Health}, h.workers = 1 → (h.run c (List.replicate n .recover)).workers = 1
  | 0, _, hw => hw
  | n + 1, h, hw => by
    have hstep : (h.step c .recover).workers = 1 := by rw [step_last (by omega), hw]
    exact run_last n hstep

/-- Recoveries that do not reach the limit are counted. -/
theorem run_count (hc : Tuned c) : ∀ (n : Nat) (h : Health), h.failures + n < c.maxFailures →
    h.run c (List.replicate n .recover) = ⟨h.failures + n, h.workers⟩
  | 0, h, _ => rfl
  | n + 1, h, hlim => by
    have hmax := hc.failures
    have hfirst : min (h.failures + 1) 255 = h.failures + 1 := by omega
    have hstep : h.step c .recover = ⟨h.failures + 1, h.workers⟩ := by
      rw [step_count (by omega), hfirst]
    have hrest := run_count hc n ⟨h.failures + 1, h.workers⟩ (by simp only; omega)
    rw [List.replicate_succ]
    change (h.step c .recover).run c _ = _
    rw [hstep, hrest, Nat.add_right_comm, Nat.add_assoc]

/-- The one that reaches it halves the workers. -/
theorem run_halve (hc : Tuned c) (hw : 1 < h.workers) {n : Nat} (hn : h.failures + n = c.maxFailures) (hpos : 0 < n) :
    h.run c (List.replicate n .recover) = ⟨0, (h.workers + 1) / 2⟩ := by
  have hmax := hc.failures
  obtain ⟨m, rfl⟩ : ∃ m, n = m + 1 := ⟨n - 1, by omega⟩
  rw [List.replicate_succ', run_append, run_count hc m h (by omega)]
  exact step_halve (by simp only; omega) hw

/-- `k` times the limit is enough to bring `2 ^ k` workers down to one. -/
theorem run_worn (hc : Tuned c) : ∀ (k : Nat) (h : Health), 1 ≤ h.workers → h.workers ≤ 2 ^ k →
    (1 < h.workers → h.failures < c.maxFailures) →
    ∀ n, k * c.maxFailures ≤ n → (h.run c (List.replicate n .recover)).workers = 1
  | 0, h, hsome, hmost, _, n, _ => run_last n (by omega)
  | k + 1, h, hsome, hmost, hbelow, n, hn => by
    by_cases hw : 1 < h.workers
    · have hlim := hbelow hw
      rw [Nat.add_mul, Nat.one_mul] at hn
      -- The rest of the way to the limit, then `k` times all of it.
      obtain ⟨m, rfl⟩ : ∃ m, n = (c.maxFailures - h.failures) + m := ⟨n - (c.maxFailures - h.failures), by omega⟩
      rw [List.replicate_add, run_append, run_halve hc hw (by omega) (by omega)]
      have hhalf : (h.workers + 1) / 2 ≤ 2 ^ k := by
        rw [Nat.pow_succ] at hmost
        omega
      exact run_worn hc k ⟨0, (h.workers + 1) / 2⟩ (by simp only; omega) hhalf (fun _ => hc.failures.1) m (by omega)
    · exact run_last n (by omega)

/-! ## The widths of the source -/

/-- No operation of a recovery leaves its type: the shift and the product are exact, though the source would saturate
the product, the counters are bytes, and the last queue number is a `u16`. -/
structure Exact (c : Config) (h : Health) : Prop where
  shift : min (min (h.failures + 1) 255) 5 < 64
  product : c.cooldown * 2 ^ min (min (h.failures + 1) 255) 5 < 2 ^ 64
  tenths : h.tenths c < 2 ^ 64
  failures : (h.step c .recover).failures < 2 ^ 8
  workers : h.workers + 1 < 2 ^ 16 ∧ (h.step c .recover).workers < 2 ^ 8
  queues : 1 ≤ queueBase + h.workers ∧ queueBase + h.workers < 2 ^ 16

theorem tenths_le : h.tenths c ≤ 600 := by
  unfold tenths
  omega

theorem Sane.exact (hs : Sane c w h) (hw : w ≤ 8) (hc : Tuned c) : Exact c h := by
  have hcool := hc.cooldown
  have hsome := hs.some
  have hmost := hs.most
  have hbyte := (hs.step hc .recover).byte
  have hnext := (hs.step hc .recover).most
  have hwait := tenths_le (c := c) (h := h)
  have hpow : 2 ^ min (min (h.failures + 1) 255) 5 ≤ 2 ^ 5 := Nat.pow_le_pow_right (by decide) (by omega)
  have hprod := Nat.mul_le_mul hcool hpow
  refine ⟨by omega, by omega, by omega, by omega, ⟨by omega, by omega⟩, ?_⟩
  unfold queueBase
  omega

/-- **Degradation and backoff.** Under any configuration the loader answers and from any number of workers it allows,
after any sequence of recoveries and stable minutes: the workers are between one and that number and never increase;
while there are more than one, a recovery leaves the failures below the limit; as many recoveries in a row as the
limit, counted from 0, halve the workers, rounding up, and three times as many leave one; no recovery waits more than
600 tenths of a second, and none of its operations leaves its type. -/
theorem recovery_spec (text : Option (List Char)) (workers : Nat) (hsome : 1 ≤ workers)
    (hmost : workers ≤ (Config.load text).workers) (bs : List Beat) :
    let c := Config.load text
    let h := (⟨0, workers⟩ : Health).run c bs
    (1 ≤ h.workers ∧ h.workers ≤ workers ∧ ∀ b, (h.step c b).workers ≤ h.workers) ∧
      (1 < h.workers → (h.step c .recover).failures < c.maxFailures) ∧
      (h.failures = 0 → 1 < h.workers →
        h.run c (List.replicate c.maxFailures .recover) = ⟨0, (h.workers + 1) / 2⟩) ∧
      (h.run c (List.replicate (3 * c.maxFailures) .recover)).workers = 1 ∧
      h.tenths c ≤ 600 ∧ Exact c h := by
  intro c h
  have hc : Tuned c := tuned_load text
  have hworkers : c.workers ≤ 8 := hc.workers.2
  have hmax := hc.failures
  have hstart : Sane c workers ⟨0, workers⟩ := ⟨hsome, Nat.le_refl _, fun _ => hmax.1, Nat.zero_le _⟩
  have hs : Sane c workers h := hstart.run hc bs
  refine ⟨⟨hs.some, hs.most, step_workers⟩, step_below hc, ?_, ?_, tenths_le, hs.exact (hmost.trans hworkers) hc⟩
  · intro hzero hw
    exact run_halve hc hw (by omega) hmax.1
  · have hfew : h.workers ≤ 2 ^ 3 := hs.most.trans (hmost.trans hworkers)
    exact run_worn hc 3 h hs.some hfew hs.below _ (Nat.le_refl _)

/-- Eight workers and a limit of one failure. -/
theorem recovery_spec_brittle :
    ((⟨0, 8⟩ : Health).run (Config.load (some "WORKERS=8\nMAX_FAILURES=1\nCOOLDOWN=60\n".toList))
      (List.replicate 3 .recover)).workers = 1 := by
  obtain ⟨_, _, _, hworn, _⟩ := recovery_spec (some "WORKERS=8\nMAX_FAILURES=1\nCOOLDOWN=60\n".toList) 8
    (by decide) (by decide) []
  exact hworn

end

end Health

/-! ## The loop's own counters -/

section
variable {c : Setup} {l : Loop}

/-- A part of a turn that goes on has left the counters alone, one that breaks off has recovered. -/
def Step.Beats (c : Setup) (l : Loop) : Step → Prop
  | .go l' => l'.health = l.health
  | .again l' => l'.health = l.health.step c.config .recover

theorem Step.Beats.of_same {l l₁ : Loop} (h : l₁.health = l.health) {step : Step} (hs : step.Beats c l₁) :
    step.Beats c l := by
  cases step with
  | go l' => exact hs.trans h
  | again l' =>
    have hbeat : l'.health = l₁.health.step c.config .recover := hs
    rw [h] at hbeat
    exact hbeat

/-- `l'` has the counters that one beat at most makes of those of `l`. -/
def Loop.Beats (c : Setup) (l l' : Loop) : Prop := ∃ b : Option Beat, l'.health = l.health.run c.config b.toList

end

end Nfqttl.Daemon
