import Mathlib.Data.List.Basic

/-!
# Machines — systems whose threads take one atomic step after another

A machine says which events may happen in a state and what each of them does.  `exec` answers
`none` when the step would touch memory it must not touch, so that "every enabled event executes"
is a statement about the program and not about the model.

* `Run es s t` takes the machine from `s` to `t` through the events `es`, in order.
* `Run.invariant` is the induction over a run, `Run.countP_le` bounds the steps of a kind,
  `run_of_play` builds a run by evaluation, and `Run.unique` says that the events decide where it
  ends.
* `restrict` keeps the steps that meet a condition on the state and the event.
* `record` runs the machine with a record beside it, which every step writes and none reads.
* `Simulates` is a step-by-step simulation by another machine, and `Simulates.run` what it gives for
  runs.
-/

namespace UtilsC
namespace Lib

structure Machine (σ ε : Type) where
  enabled : σ → ε → Bool
  exec : σ → ε → Option σ

namespace Machine

variable {σ ε : Type} (M : Machine σ ε)

inductive Run (s : σ) : List ε → σ → Prop
  | nil : Run s [] s
  | snoc {es : List ε} {t u : σ} {e : ε} (hrun : Run s es t) (henabled : M.enabled t e = true)
      (hexec : M.exec t e = some u) : Run s (es ++ [e]) u

variable {M}

theorem Run.invariant {J : σ → Prop} {ok : ε → Prop} {s t : σ} {es : List ε}
    (hstart : J s)
    (hstep : ∀ {t u : σ} {e : ε}, J t → ok e → M.enabled t e = true → M.exec t e = some u → J u)
    (hrun : M.Run s es t) (hok : ∀ e ∈ es, ok e) : J t := by
  induction hrun with
  | nil => exact hstart
  | snoc _ henabled hexec ih =>
      have hJ := ih fun e he => hok e (List.mem_append_left _ he)
      exact hstep hJ (hok _ (by simp)) henabled hexec

/-- A measure that no step raises and the steps of a kind lower bounds how many of these steps a
run has. -/
theorem Run.countP_le {J : σ → Prop} {μ : σ → Nat} {p : ε → Bool} {s t : σ} {es : List ε}
    (hstart : J s)
    (hstep : ∀ {t u : σ} {e : ε}, J t → M.enabled t e = true → M.exec t e = some u →
      J u ∧ μ u + (if p e = true then 1 else 0) ≤ μ t)
    (hrun : M.Run s es t) : J t ∧ es.countP p + μ t ≤ μ s := by
  induction hrun with
  | nil => exact ⟨hstart, by simp⟩
  | snoc _ henabled hexec ih =>
      rcases hstep ih.1 henabled hexec with ⟨hJ, hle⟩
      refine ⟨hJ, ?_⟩
      rw [List.countP_append, List.countP_singleton]
      have := ih.2
      omega

theorem Run.trans {s t u : σ} {es es' : List ε} (hrun : M.Run s es t) (hrun' : M.Run t es' u) :
    M.Run s (es ++ es') u := by
  induction hrun' with
  | nil => simpa using hrun
  | snoc _ henabled hexec ih =>
      have hsnoc := Run.snoc ih henabled hexec
      rwa [List.append_assoc] at hsnoc

variable (M)

/-- Play a list of events, as long as each is enabled. -/
def play (s : σ) : List ε → Option σ
  | [] => some s
  | e :: es => if M.enabled s e = true then (M.exec s e).bind fun t => play t es else none

variable {M}

theorem run_of_play {es : List ε} : ∀ {s t : σ}, M.play s es = some t → M.Run s es t := by
  induction es with
  | nil =>
      intro s t hplay
      cases hplay
      exact Run.nil
  | cons e es ih =>
      intro s t hplay
      by_cases henabled : M.enabled s e = true
      · simp only [play, henabled, if_true] at hplay
        rcases Option.bind_eq_some_iff.1 hplay with ⟨mid, hexec, hrest⟩
        have hfirst : M.Run s [e] mid := Run.snoc Run.nil henabled hexec
        exact hfirst.trans (ih hrest)
      · simp [play, henabled] at hplay

theorem play_append {es es' : List ε} : ∀ {s : σ},
    M.play s (es ++ es') = (M.play s es).bind fun t => M.play t es' := by
  induction es with
  | nil =>
      intro s
      rfl
  | cons e es ih =>
      intro s
      by_cases henabled : M.enabled s e = true
      · simp only [List.cons_append, play, henabled, if_true, Option.bind_assoc, ih]
      · simp [play, henabled]

/-- The runs are the plays. -/
theorem run_iff_play {es : List ε} {s t : σ} : M.Run s es t ↔ M.play s es = some t := by
  refine ⟨fun hrun => ?_, run_of_play⟩
  induction hrun with
  | nil => rfl
  | snoc _ henabled hexec ih =>
      rw [play_append, ih]
      simp [play, henabled, hexec]

/-- The last step of a run. -/
theorem run_snoc_iff {es : List ε} {e : ε} {s u : σ} :
    M.Run s (es ++ [e]) u ↔
      ∃ t, M.Run s es t ∧ M.enabled t e = true ∧ M.exec t e = some u := by
  constructor
  · intro hrun
    rw [run_iff_play, play_append] at hrun
    rcases Option.bind_eq_some_iff.1 hrun with ⟨t, hplay, hlast⟩
    by_cases henabled : M.enabled t e = true
    · simp only [play, henabled, if_true, Option.bind_fun_some] at hlast
      exact ⟨t, run_of_play hplay, henabled, hlast⟩
    · simp [play, henabled] at hlast
  · rintro ⟨t, hrun, henabled, hexec⟩
    exact Run.snoc hrun henabled hexec

/-- The events decide where a run ends. -/
theorem Run.unique {es : List ε} {s t t' : σ} (hrun : M.Run s es t) (hrun' : M.Run s es t') :
    t = t' := by
  rw [run_iff_play] at hrun hrun'
  exact Option.some.inj (hrun.symm.trans hrun')

/-- A run whose last state passes a test. -/
theorem exists_run_of_play {es : List ε} {s : σ} {test : σ → Bool}
    (hplay : (M.play s es).any test = true) : ∃ t, M.Run s es t ∧ test t = true := by
  cases h : M.play s es with
  | none =>
      rw [h] at hplay
      cases hplay
  | some t =>
      rw [h] at hplay
      exact ⟨t, run_of_play h, hplay⟩

/-- The machine that takes only the steps for which `cond` holds. -/
def restrict (M : Machine σ ε) (cond : σ → ε → Bool) : Machine σ ε where
  enabled s e := M.enabled s e && cond s e
  exec := M.exec

theorem Run.of_restrict {cond : σ → ε → Bool} {es : List ε} {s t : σ}
    (hrun : (M.restrict cond).Run s es t) : M.Run s es t := by
  induction hrun with
  | nil => exact Run.nil
  | snoc _ henabled hexec ih => exact Run.snoc ih ((Bool.and_eq_true _ _).mp henabled).1 hexec

/-! ## Records -/

variable {ρ : Type}

/-- `note` says what the record is after a step. -/
def record (M : Machine σ ε) (note : σ → ε → ρ → ρ) : Machine (σ × ρ) ε where
  enabled s e := M.enabled s.1 e
  exec s e := (M.exec s.1 e).map fun t => (t, note s.1 e s.2)

variable {note : σ → ε → ρ → ρ}

theorem exec_record {s t : σ × ρ} {e : ε} (hexec : (M.record note).exec s e = some t) :
    M.exec s.1 e = some t.1 ∧ t.2 = note s.1 e s.2 := by
  rcases Option.map_eq_some_iff.1 hexec with ⟨u, hu, rfl⟩
  exact ⟨hu, rfl⟩

theorem Run.record (r : ρ) {es : List ε} {s t : σ} (hrun : M.Run s es t) :
    ∃ r', (M.record note).Run (s, r) es (t, r') := by
  induction hrun with
  | nil => exact ⟨r, Run.nil⟩
  | @snoc es t u e _ henabled hexec ih =>
      rcases ih with ⟨r', hrun'⟩
      have hstep : (M.record note).exec (t, r') e = some (u, note t e r') := by
        simp [Machine.record, hexec]
      exact ⟨_, Run.snoc hrun' henabled hstep⟩

/-! ## Simulation -/

variable {τ δ : Type}

/-- As long as `Inv` holds, a step of `M` is a step of `N` on what `f` shows of the state, or none
at all. -/
def Simulates (M : Machine σ ε) (N : Machine τ δ) (f : σ → τ) (Inv : σ → Prop) : Prop :=
  ∀ s e t, Inv s → M.enabled s e = true → M.exec s e = some t →
    Inv t ∧ (f t = f s ∨ ∃ d, N.enabled (f s) d = true ∧ N.exec (f s) d = some (f t))

theorem Simulates.run {N : Machine τ δ} {f : σ → τ} {Inv : σ → Prop}
    (hsim : M.Simulates N f Inv) {es : List ε} {s t : σ} (hinv : Inv s) (hrun : M.Run s es t) :
    Inv t ∧ ∃ ds, N.Run (f s) ds (f t) := by
  induction hrun with
  | nil => exact ⟨hinv, [], Run.nil⟩
  | snoc _ henabled hexec ih =>
      rcases ih with ⟨hinv', ds, hrun'⟩
      rcases hsim _ _ _ hinv' henabled hexec with ⟨hinv'', hsame | ⟨d, henabled', hexec'⟩⟩
      · exact ⟨hinv'', ds, hsame ▸ hrun'⟩
      · exact ⟨hinv'', ds ++ [d], hrun'.snoc henabled' hexec'⟩

end Machine
end Lib
end UtilsC
