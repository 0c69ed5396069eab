import Mathlib.Data.List.Basic

/-!
# Traced computations

A computation that may fail, with the points it passes.  The points are there whether or not it
comes to a result, so that a property of all of them is about every run that is cut short, too.

* `All P Q x`: every point of `x` has `P`, and a result has `Q`.
* The rules of `All` follow the program: `All.log`, `All.lift`, `All.bind`, and `All.fold` for a
  list of parts that keep an invariant.
-/

namespace UtilsC
namespace Lib

/-- A result, or none, and the points passed on the way. -/
structure Traced (π α : Type) where
  points : List π
  result : Option α

namespace Traced

variable {π α β σ ι : Type}

def pure (a : α) : Traced π α :=
  { points := [], result := some a }

/-- A step that passes no point. -/
def lift (x : Option α) : Traced π α :=
  { points := [], result := x }

/-- Pass a point. -/
def log (p : π) : Traced π Unit :=
  { points := [p], result := some () }

def bind (x : Traced π α) (f : α → Traced π β) : Traced π β :=
  match x.result with
  | none => { points := x.points, result := none }
  | some a => { points := x.points ++ (f a).points, result := (f a).result }

/-- One part after another. -/
def fold (f : σ → ι → Traced π σ) : List ι → σ → Traced π σ
  | [], s => pure s
  | i :: is, s => (f s i).bind (fold f is)

/-! ## The result -/

@[simp] theorem result_pure (a : α) : (pure a : Traced π α).result = some a := rfl

@[simp] theorem result_lift (x : Option α) : (lift x : Traced π α).result = x := rfl

@[simp] theorem result_log (p : π) : (log p).result = some () := rfl

@[simp] theorem result_bind (x : Traced π α) (f : α → Traced π β) :
    (x.bind f).result = x.result.bind fun a => (f a).result := by
  unfold bind
  cases x.result with
  | none => rfl
  | some a => rfl

theorem result_fold {f : σ → ι → Traced π σ} {g : σ → ι → Option σ}
    (hf : ∀ s i, (f s i).result = g s i) :
    ∀ (is : List ι) (s : σ), (fold f is s).result = is.foldlM g s
  | [], _ => rfl
  | i :: is, s => by
      rw [fold, result_bind, hf, List.foldlM_cons]
      exact congrArg (Option.bind (g s i)) (funext fun t => result_fold hf is t)

/-! ## What holds on the way -/

/-- Every point has `P`, and a result has `Q`. -/
structure All (P : π → Prop) (Q : α → Prop) (x : Traced π α) : Prop where
  points : ∀ p ∈ x.points, P p
  result : ∀ a, x.result = some a → Q a

section Rules

variable {P : π → Prop} {Q : α → Prop} {R : β → Prop}

theorem All.pure {a : α} (ha : Q a) : All P Q (pure a) where
  points := fun _ hp => absurd hp List.not_mem_nil
  result := fun _ h => Option.some.inj h ▸ ha

theorem All.lift {x : Option α} (hx : ∀ a, x = some a → Q a) : All P Q (lift x) where
  points := fun _ hp => absurd hp List.not_mem_nil
  result := hx

theorem All.log {p : π} (hp : P p) : All P (fun _ => True) (log p) where
  points := fun _ h => List.mem_singleton.1 h ▸ hp
  result := fun _ _ => trivial

theorem All.bind {x : Traced π α} {f : α → Traced π β} (hx : All P Q x)
    (hf : ∀ a, Q a → All P R (f a)) : All P R (x.bind f) := by
  unfold Traced.bind
  cases hres : x.result with
  | none =>
      refine ⟨hx.points, ?_⟩
      intro b hb
      cases hb
  | some a =>
      have hrest := hf a (hx.result a hres)
      refine ⟨?_, hrest.result⟩
      intro p hp
      rcases List.mem_append.1 hp with hfirst | hlast
      · exact hx.points p hfirst
      · exact hrest.points p hlast

theorem All.imp {Q' : α → Prop} {x : Traced π α} (hx : All P Q x) (himp : ∀ a, Q a → Q' a) :
    All P Q' x :=
  ⟨hx.points, fun a ha => himp a (hx.result a ha)⟩

/-- An invariant of the parts that are left. -/
theorem All.fold {J : List ι → σ → Prop} {f : σ → ι → Traced π σ}
    (hstep : ∀ i is s, J (i :: is) s → All P (J is) (f s i)) :
    ∀ (is : List ι) {s : σ}, J is s → All P (J []) (fold f is s)
  | [], _, hs => All.pure hs
  | i :: is, s, hs => (hstep i is s hs).bind fun _ ht => All.fold hstep is ht

end Rules

end Traced
end Lib
end UtilsC
