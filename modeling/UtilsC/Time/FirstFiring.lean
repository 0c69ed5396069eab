import UtilsC.Time.Delete

/-!
# The first firing of a new timer

`uc_timer_add_do` chooses the list of a new timer as though the clock stood at 0
(`addSlot_eq_place`): it takes the highest digit of the deadline that is not 0, whether or not the
clock already has this digit.  When the clock has it, the timer lands in the list the clock points
to, which is not visited again before the deadline.

`ucTimerAdd_fires_first_iff`: a new timer fires at its deadline exactly when the clock does not have
that digit yet.
-/

namespace UtilsC
namespace Time

open Lib

/-! ## The list of a new timer -/

def Stamp.zero : Stamp := { ms := 0, s := 0, m := 0, h := 0, d := 0 }

theorem addSlot_eq_place (next : Stamp) : addSlot next = place Stamp.zero next := rfl

/-- The highest of day, hour, minute and second of the deadline that is not 0 is not the clock's. -/
def SlotAhead (now deadline : Nat) : Prop :=
  if deadline / 86400000 ≠ 0 then deadline / 86400000 ≠ now / 86400000
  else if deadline / 3600000 ≠ 0 then deadline / 3600000 ≠ now / 3600000
  else if deadline / 60000 ≠ 0 then deadline / 60000 ≠ now / 60000
  else if deadline / 1000 ≠ 0 then deadline / 1000 ≠ now / 1000
  else True

theorem slotAhead_iff {l : Level} {next : Stamp} (now : Stamp) (hagree : l.Agree Stamp.zero next)
    (htop : l = .ms ∨ l.quot Stamp.zero ≠ l.quot next) :
    SlotAhead now.val next.val ↔ l = .ms ∨ l.quot now ≠ l.quot next := by
  have hzero : Stamp.zero.val = 0 := rfl
  cases l <;>
    simp only [Level.Agree, Level.quot, Level.unit, Level.turn, SlotAhead, hzero, Nat.zero_div,
      reduceCtorEq, false_or, true_or] at hagree htop ⊢
  · have h1 : next.val / 1000 = 0 := by omega
    have h2 : next.val / 60000 = 0 := by omega
    have h3 : next.val / 3600000 = 0 := by omega
    have h4 : next.val / 86400000 = 0 := by omega
    simp [h1, h2, h3, h4]
  · have h2 : next.val / 60000 = 0 := by omega
    have h3 : next.val / 3600000 = 0 := by omega
    have h4 : next.val / 86400000 = 0 := by omega
    simp [h2, h3, h4, htop.symm, eq_comm]
  · have h3 : next.val / 3600000 = 0 := by omega
    have h4 : next.val / 86400000 = 0 := by omega
    simp [h3, h4, htop.symm, eq_comm]
  · have h4 : next.val / 86400000 = 0 := by omega
    simp [h4, htop.symm, eq_comm]
  · simp [htop.symm, eq_comm]

/-- A new timer is in its place, or in the list of a higher wheel that the clock points to. -/
theorem addSlot_cases {now next : Stamp} (hlt : now.val < next.val) :
    (SlotAhead now.val next.val ∧ addSlot next = place now next) ∨
      (¬ SlotAhead now.val next.val ∧
        ∃ l : Level, addSlot next = l.slot next ∧ l.quot now = l.quot next) := by
  rcases Level.exists_level Stamp.zero next with ⟨l, hagree, htop⟩
  have hslot : addSlot next = l.slot next := by
    rw [addSlot_eq_place]
    exact Level.place_eq hagree htop
  have hiff := slotAhead_iff now hagree htop
  have hagree' : l.Agree now next := by
    have hzero : Stamp.zero.val = 0 := rfl
    have hle := Nat.div_le_div_right (c := l.turn) (le_of_lt hlt)
    simp only [Level.Agree, hzero, Nat.zero_div] at hagree ⊢
    exact le_antisymm hle (hagree ▸ Nat.zero_le _)
  -- `addSlot` looks at the deadline alone, `place` also at the clock
  by_cases hahead : l = .ms ∨ l.quot now ≠ l.quot next
  · exact Or.inl ⟨hiff.2 hahead, hslot.trans (Level.place_eq hagree' hahead).symm⟩
  · refine Or.inr ⟨fun h => hahead (hiff.1 h), l, hslot, ?_⟩
    by_contra hne
    exact hahead (Or.inr hne)

/-! ## A timer in the list the clock points to -/

section Stuck

variable {F X : Type}

theorem through_stuck {l : Level} {x : Stamp} {t : Timer F X} (hslot : t.slot = some (l.slot x)) :
    ∀ {rest : List Level} {idx : Stamp} {final : Nat}, Carry rest idx final →
      final % l.unit ≠ 0 → Timer.through (rest.map Level.stage) idx t = (t, 0)
  | [], _, _, _, _ => rfl
  | k :: rest, idx, final, hc, hfinal => by
      rcases hc with ⟨hdue, hval, hc⟩ | ⟨hidle, _, hc⟩
      · -- if the timer's own stage were due, the clock would stand at a whole unit in the end
        have hkl : l ≠ k := by
          intro hkl
          subst hkl
          have hmod : final % l.unit = 0 := by
            rw [← hval, Nat.add_mod_right]
            exact hdue
          exact hfinal hmod
        have hne : l.slot x ≠ k.stage.slot (k.stage.advance idx) := by
          rw [Level.stage_slot]
          exact Level.slot_ne hkl _ _
        have hquiet : k.stage.timer idx t = (t, 0) := by
          simp [Stage.timer, hslot, hne]
        rw [List.map_cons, through_quiet hquiet, Level.clock_due hdue]
        exact through_stuck hslot hc hfinal
      · rw [List.map_cons, through_quiet (Level.timer_idle hidle _), Level.clock_idle hidle]
        exact through_stuck hslot hc hfinal

/-- Ticks that do not complete a unit of the wheel leave its timers alone. -/
theorem Timer.tick_stuck {l : Level} {x idx : Stamp} {t : Timer F X}
    (hslot : t.slot = some (l.slot x)) (hlt : idx.val + 1 < 86400000 * 65536)
    (hunit : (idx.val + 1) % l.unit ≠ 0) : Timer.tick idx t = (t, 0) := by
  rw [Timer.tick, stages_eq]
  exact through_stuck hslot (carry_levels hlt) hunit

end Stuck

/-! ## The steps of a run -/

section Steps

variable {A F X : Type} [DecidableEq A]

variable {mgr mgr' : UcTimerManager A F X} {lists : Slot → List A} {timers : A → Timer F X}

omit [DecidableEq A] in
theorem Intervals.update [DecidableEq A] (hint : Intervals timers) {b : A} {t : Timer F X}
    (ht : t.slot ≠ none → 0 < t.item.interval ∧ t.item.interval < timerIntervalMax) :
    Intervals (Function.update timers b t) := by
  intro c hc
  by_cases hcb : c = b
  · subst hcb
    rw [Function.update_self] at hc ⊢
    exact ht hc
  · rw [Function.update_of_ne hcb] at hc ⊢
    exact hint c hc

/-- A call between two ticks leaves the clock, the tasks and every live timer but the one it is
about. -/
structure Quiet (mgr mgr' : UcTimerManager A F X) (timers timers' : A → Timer F X) (b : Option A) :
    Prop where
  idx : mgr'.idx = mgr.idx
  tasks : mgr'.tasks = mgr.tasks
  others : ∀ a, mgr.links.live (Loc.item a) = true → b ≠ some a →
    mgr'.links.live (Loc.item a) = true ∧ timers' a = timers a

theorem add_step (hR : Represents mgr lists timers) (hint : Intervals timers)
    {malloc hdl : Option A} {millisecond ttl : Nat} {cb : Option F} {arg : X}
    (hfresh : ∀ b, malloc = some b → mgr.links.live (Loc.item b) = false)
    (hadd : ucTimerAddDo malloc millisecond ttl cb arg mgr = some (mgr', hdl)) :
    ∃ lists' timers', Represents mgr' lists' timers' ∧ Intervals timers' ∧
      Quiet mgr mgr' timers timers' none := by
  rcases ucTimerAddDo_step hR hfresh hadd with
    rfl | ⟨b, it, lists₂, hmalloc, ⟨f, rfl⟩, hpos, hmax, hR₂, hidx₂, htasks₂, hlive₂⟩
  · exact ⟨lists, timers, hR, hint, rfl, rfl, fun a ha _ => ⟨ha, rfl⟩⟩
  · have hdead := hfresh b hmalloc
    refine ⟨lists₂, _, hR₂, hint.update fun _ => ⟨hpos, hmax⟩, hidx₂, htasks₂, ?_⟩
    intro a ha _
    -- memory that `malloc` gives is not a live timer
    have hab : a ≠ b := by
      intro hab
      rw [hab, hdead] at ha
      cases ha
    have hne : (Loc.item a : Loc Slot A) ≠ Loc.item b := fun h => hab (by cases h; rfl)
    rw [hlive₂, Function.update_of_ne hne, Function.update_of_ne hab]
    exact ⟨ha, rfl⟩

theorem delete_step (hR : Represents mgr lists timers) (hint : Intervals timers) {b : A} {ret : Int}
    (hlive : mgr.links.live (Loc.item b) = true) (hok : Kept mgr b)
    (hdelete : ucTimerDeleteDo (some b) mgr = some (mgr', ret)) :
    ∃ lists' timers', Represents mgr' lists' timers' ∧ Intervals timers' ∧
      Quiet mgr mgr' timers timers' (some b) := by
  rcases hR.delete hlive hok hdelete with ⟨hR', hidx, htasks, hlive'⟩
  refine ⟨_, _, hR', hint.update fun h => absurd rfl h, hidx, htasks, ?_⟩
  intro a ha hab
  have hab' : a ≠ b := fun h => hab (h ▸ rfl)
  have hne : (Loc.item a : Loc Slot A) ≠ Loc.item b := fun h => hab' (by cases h; rfl)
  refine ⟨?_, Function.update_of_ne hab' _ _⟩
  rw [hlive', Function.update_of_ne hne]
  exact ha

omit [DecidableEq A] in
theorem Intervals.tick (hint : Intervals timers) (idx : Stamp) :
    Intervals fun a => (Timer.tick idx (timers a)).1 := by
  refine hint.of_core (fun a => Timer.core_tick idx (timers a)) ?_
  intro b hb
  rw [Timer.tick, Timer.through_unlinked hb]
  exact hb

theorem tick_step (hR : Represents mgr lists timers) (hint : Intervals timers)
    (hclock : mgr.idx.val + 1 < 2 ^ 31) :
    ∃ fuel mgr' lists', ucTimerCheckTimeout fuel mgr = some mgr' ∧
      mgr'.idx = tickClock mgr.idx ∧ mgr'.idx.val = mgr.idx.val + 1 ∧
      Represents mgr' lists' (fun a => (Timer.tick mgr.idx (timers a)).1) ∧
      Intervals (fun a => (Timer.tick mgr.idx (timers a)).1) ∧
      Moved mgr mgr' timers fun a => Timer.tick mgr.idx (timers a) := by
  rcases ucTimerCheckTimeout_spec hR hint hclock with ⟨fuel, mgr', htick, hidx, hmoved⟩
  rcases hmoved.represents with ⟨lists', hR'⟩
  have hlt : mgr.idx.val + 1 < 86400000 * 65536 := by omega
  have hclock' : mgr'.idx.val = mgr.idx.val + 1 := by
    rw [hidx, tickClock_val hlt]
  exact ⟨fuel, mgr', lists', htick, hidx, hclock', hR', hint.tick mgr.idx, hmoved⟩

/-- Ticks alone make a run. -/
theorem exists_ticks (ok : UcTimerManager A F X → A → Prop) (hR : Represents mgr lists timers)
    (hint : Intervals timers) (n : Nat) (hbound : mgr.idx.val + n < 2 ^ 31) :
    ∃ mgr' lists' timers', Run ok mgr n mgr' ∧ Represents mgr' lists' timers' ∧
      Intervals timers' ∧ mgr'.idx.val = mgr.idx.val + n ∧ mgr'.links.live = mgr.links.live := by
  induction n with
  | zero => exact ⟨mgr, lists, timers, .start, hR, hint, (Nat.add_zero _).symm, rfl⟩
  | succ n ih =>
      rcases ih (by omega) with ⟨mgr₁, lists₁, timers₁, hrun₁, hR₁, hint₁, hclock₁, hlive₁⟩
      rcases tick_step hR₁ hint₁ (by omega) with
        ⟨fuel, mgr₂, lists₂, htick₂, _, hclock₂, hR₂, hint₂, hmoved⟩
      exact ⟨mgr₂, lists₂, _, hrun₁.tick htick₂, hR₂, hint₂, by omega,
        hmoved.live.trans hlive₁⟩

/-- While the clock fits an `int`, every state of a run is well formed. -/
theorem Run.reached (hR : Represents mgr lists timers) (hint : Intervals timers) {n : Nat}
    (hrun : Run Kept mgr n mgr') (hbound : mgr.idx.val + n < 2 ^ 31) :
    mgr'.idx.val = mgr.idx.val + n ∧
      ∃ lists' timers', Represents mgr' lists' timers' ∧ Intervals timers' := by
  induction hrun with
  | start => exact ⟨(Nat.add_zero _).symm, lists, timers, hR, hint⟩
  | add _ hfresh hadd ih =>
      rcases ih hbound with ⟨hclock, lists₁, timers₁, hR₁, hint₁⟩
      rcases add_step hR₁ hint₁ hfresh hadd with ⟨lists₂, timers₂, hR₂, hint₂, hquiet⟩
      exact ⟨hquiet.idx ▸ hclock, lists₂, timers₂, hR₂, hint₂⟩
  | tick _ htick ih =>
      rcases ih (by omega) with ⟨hclock, lists₁, timers₁, hR₁, hint₁⟩
      rcases tick_step hR₁ hint₁ (by omega) with
        ⟨_, mgr₂, lists₂, htick₂, _, hclock₂, hR₂, hint₂, _⟩
      have heq := ucTimerCheckTimeout_unique htick₂ htick
      subst heq
      exact ⟨by omega, lists₂, _, hR₂, hint₂⟩
  | delete _ hlive hok hdelete ih =>
      rcases ih hbound with ⟨hclock, lists₁, timers₁, hR₁, hint₁⟩
      rcases delete_step hR₁ hint₁ hlive hok hdelete with ⟨lists₂, timers₂, hR₂, hint₂, hquiet⟩
      exact ⟨hquiet.idx ▸ hclock, lists₂, timers₂, hR₂, hint₂⟩

end Steps

/-! ## Following one timer through a run -/

section Follow

variable {A F X : Type} [DecidableEq A]

/-- The deletions of a run that does not touch the timer `a`. -/
def Others (a : A) (mgr : UcTimerManager A F X) (b : A) : Prop := b ≠ a ∧ Kept mgr b

/-- What is known of a state reached from `mgr`: the lists, the clock, and for the timer `a` its
own state and how often it fired. -/
structure Follows (mgr mgr' : UcTimerManager A F X) (n : Nat) (a : A) (t : Timer F X)
    (fired : Nat) : Prop where
  state : ∃ lists timers, Represents mgr' lists timers ∧ Intervals timers ∧ timers a = t
  clock : mgr'.idx.val = mgr.idx.val + n
  live : mgr'.links.live (Loc.item a) = true
  tasks : ∃ log, mgr'.tasks = mgr.tasks ++ log ∧ (log.countP fun t => t.1 = a) = fired

variable {mgr mid mgr' : UcTimerManager A F X} {n : Nat} {a : A} {t : Timer F X} {fired : Nat}

theorem Follows.firings_eq (hf : Follows mgr mgr' n a t fired) : firings mgr mgr' a = fired := by
  rcases hf.tasks with ⟨log, htasks, hcount⟩
  have hdispatched : dispatched mgr mgr' = log := by simp [dispatched, htasks]
  rw [firings, hdispatched]
  exact hcount

theorem Follows.quiet (hf : Follows mgr mid n a t fired) {lists' : Slot → List A}
    {timers timers' : A → Timer F X} {b : Option A} (hR' : Represents mgr' lists' timers')
    (hint' : Intervals timers') (hquiet : Quiet mid mgr' timers timers' b) (hta : timers a = t)
    (hab : b ≠ some a) : Follows mgr mgr' n a t fired := by
  have hsame := hquiet.others a hf.live hab
  exact ⟨⟨lists', timers', hR', hint', hsame.2.trans hta⟩, hquiet.idx ▸ hf.clock, hsame.1,
    hquiet.tasks ▸ hf.tasks⟩

theorem Follows.tick (hf : Follows mgr mid n a t fired) {fuel : Nat}
    (hclock : mid.idx.val + 1 < 2 ^ 31) (htick : ucTimerCheckTimeout fuel mid = some mgr') :
    Follows mgr mgr' (n + 1) a (Timer.tick mid.idx t).1 (fired + (Timer.tick mid.idx t).2) ∧
      mgr'.idx = tickClock mid.idx := by
  rcases hf.state with ⟨lists, timers, hR, hint, hta⟩
  rcases hf.tasks with ⟨log, htasks, hcount⟩
  rcases tick_step hR hint hclock with
    ⟨_, mgr₂, lists₂, htick₂, hidx₂, hclock₂, hR₂, hint₂, hmoved⟩
  -- the tick of the run is the one that is known to return
  have heq := ucTimerCheckTimeout_unique htick₂ htick
  subst heq
  rcases hmoved.tasks with ⟨log₂, htasks₂, _⟩
  refine ⟨⟨⟨lists₂, _, hR₂, hint₂, by rw [hta]⟩, ?_, ?_, ?_⟩, hidx₂⟩
  · rw [hclock₂, hf.clock, Nat.add_assoc]
  · rw [hmoved.live]
    exact hf.live
  · refine ⟨log ++ log₂.map (task timers), ?_, ?_⟩
    · rw [htasks₂, htasks, List.append_assoc]
    · have hfire := hmoved.firings_eq a
      have hdispatched : dispatched mid mgr₂ = log₂.map (task timers) := by
        simp [dispatched, htasks₂]
      rw [firings, hdispatched, hta] at hfire
      rw [List.countP_append, hcount, hfire]

/-- The run rule: what one tick keeps of the timer, a run keeps. -/
theorem Run.follows {bound : Nat} {J : Nat → Stamp → Timer F X → Nat → Prop} {a : A}
    {t : Timer F X} (hbound : mgr.idx.val + bound < 2 ^ 31)
    (hstart : Follows mgr mgr 0 a t 0) (hJ : J 0 mgr.idx t 0)
    (hstep : ∀ k idx t fired, k < bound → idx.val = mgr.idx.val + k → J k idx t fired →
      J (k + 1) (tickClock idx) (Timer.tick idx t).1 (fired + (Timer.tick idx t).2))
    {n : Nat} (hrun : Run (Others a) mgr n mgr') (hn : n ≤ bound) :
    ∃ t' fired, Follows mgr mgr' n a t' fired ∧ J n mgr'.idx t' fired := by
  induction hrun with
  | start => exact ⟨t, 0, hstart, hJ⟩
  | add _ hfresh hadd ih =>
      rcases ih hn with ⟨t', fired, hf, hJ'⟩
      rcases hf.state with ⟨lists, timers, hR, hint, hta⟩
      rcases add_step hR hint hfresh hadd with ⟨_, _, hR', hint', hquiet⟩
      exact ⟨t', fired, hf.quiet hR' hint' hquiet hta (by simp), hquiet.idx ▸ hJ'⟩
  | tick _ htick ih =>
      rcases ih (by omega) with ⟨t', fired, hf, hJ'⟩
      have hclock := hf.clock
      rcases hf.tick (by omega) htick with ⟨hf', hidx⟩
      exact ⟨_, _, hf', hidx ▸ hstep _ _ _ _ (by omega) hclock hJ'⟩
  | delete _ hlive hok hdelete ih =>
      rcases ih hn with ⟨t', fired, hf, hJ'⟩
      rcases hf.state with ⟨lists, timers, hR, hint, hta⟩
      rcases delete_step hR hint hlive hok.2 hdelete with ⟨_, _, hR', hint', hquiet⟩
      have hab : ∀ b, b ≠ a → some b ≠ some a := fun b hba h => hba (Option.some.inj h)
      exact ⟨t', fired, hf.quiet hR' hint' hquiet hta (hab _ hok.1), hquiet.idx ▸ hJ'⟩

end Follow

theorem intervals_empty {A F X : Type} (mem : A → UcTimerItem F X) :
    Intervals fun a => ({ slot := none, item := mem a } : Timer F X) :=
  fun _ ha => absurd rfl ha

theorem val_emptyManager {A F X : Type} (mem : A → UcTimerItem F X) :
    (emptyManager mem).idx.val = 0 := by
  simp [emptyManager, Stamp.val]

/-! ## The first firing -/

section First

variable {A F X : Type} [DecidableEq A]

/-- The timer `a` fires at the `n`-th tick from now on and not before: in a run of at most `n`
ticks that does not delete it every further tick returns, and the timer has fired only if the run
has all `n`. -/
structure FiresFirstAt (mgr : UcTimerManager A F X) (a : A) (n : Nat) : Prop where
  returns : ∀ k < n, ∀ mgr', Run (Others a) mgr k mgr' →
    ∃ fuel mgr'', ucTimerCheckTimeout fuel mgr' = some mgr''
  firings : ∀ k ≤ n, ∀ mgr', Run (Others a) mgr k mgr' →
    firings mgr mgr' a = if k = n then 1 else 0

variable {mgr mgr₁ : UcTimerManager A F X} {a : A} {n ttl : Nat} {cb : F} {arg : X}

/-- The state right after the timer was added. -/
theorem added (hreached : ∃ lists timers, Represents mgr lists timers ∧ Intervals timers)
    (hpos : 0 < n) (hmax : n < timerIntervalMax) (hfresh : mgr.links.live (Loc.item a) = false)
    (hadd : ucTimerAddDo (some a) n ttl (some cb) arg mgr = some (mgr₁, some a)) :
    let it := newItem mgr.idx n ttl cb arg
    mgr₁.idx = mgr.idx ∧
      Follows mgr₁ mgr₁ 0 a { slot := some (addSlot it.next), item := it } 0 := by
  intro it
  rcases hreached with ⟨lists, timers, hR, hint⟩
  rcases ucTimerAddDo_spec hR hfresh hpos hmax ttl cb arg with
    ⟨mgr₂, lists₂, hadd₂, hR₂, hidx, _, hlive⟩
  rw [hadd₂] at hadd
  cases hadd
  refine ⟨hidx, ⟨_, _, hR₂, hint.update fun _ => ⟨hpos, hmax⟩, Function.update_self _ _ _⟩,
    (Nat.add_zero _).symm, ?_, [], by simp, rfl⟩
  rw [hlive, Function.update_self]

theorem ticks_return {t : Timer F X} (hbound : mgr.idx.val + n < 2 ^ 31)
    (hstart : Follows mgr mgr 0 a t 0) {k : Nat} (hk : k < n) {mgr' : UcTimerManager A F X}
    (hrun : Run (Others a) mgr k mgr') :
    ∃ fuel mgr'', ucTimerCheckTimeout fuel mgr' = some mgr'' := by
  have hfollows := hrun.follows (J := fun _ _ _ _ => True) hbound hstart True.intro
    (fun _ _ _ _ _ _ _ => True.intro) (le_of_lt hk)
  rcases hfollows with ⟨t', fired, hf, _⟩
  rcases hf.state with ⟨lists, timers, hR, hint, _⟩
  have hclock := hf.clock
  rcases tick_step hR hint (by omega) with ⟨fuel, mgr'', _, htick, _⟩
  exact ⟨fuel, mgr'', htick⟩

/-- A timer in its place fires at its deadline, whatever else is added and deleted meanwhile. -/
theorem firesFirst_of_waiting {it : UcTimerItem F X} (hbound : mgr.idx.val + n < 2 ^ 31)
    (hpos : 0 < n) (hnext : it.next.val = mgr.idx.val + n)
    (hstart : Follows mgr mgr 0 a (Timer.waiting mgr.idx it) 0) : FiresFirstAt mgr a n := by
  refine ⟨fun k hk mgr' hrun => ticks_return hbound hstart hk hrun, ?_⟩
  intro k hk mgr' hrun
  -- the timer waits in its place until the last tick, which fires it
  let J : Nat → Stamp → Timer F X → Nat → Prop := fun k idx t fired =>
    (k < n ∧ t = Timer.waiting idx it ∧ fired = 0) ∨ (k = n ∧ fired = 1)
  have hstep : ∀ k idx t fired, k < n → idx.val = mgr.idx.val + k → J k idx t fired →
      J (k + 1) (tickClock idx) (Timer.tick idx t).1 (fired + (Timer.tick idx t).2) := by
    intro k idx t fired hk hidx hJ
    rcases hJ with ⟨_, hwait, hfired⟩ | ⟨hend, _⟩
    · have hlt : idx.val + 1 < 86400000 * 65536 := by omega
      have hahead : idx.val < it.next.val := by omega
      have htick := Timer.tick_waiting hlt hahead
      rw [hwait, htick, hfired]
      by_cases hat : it.next.val = idx.val + 1
      · rw [if_pos hat]
        exact Or.inr ⟨by omega, rfl⟩
      · rw [if_neg hat]
        exact Or.inl ⟨by omega, rfl, rfl⟩
    · omega
  rcases hrun.follows (J := J) hbound hstart (Or.inl ⟨hpos, rfl, rfl⟩) hstep hk with
    ⟨t', fired, hf, hJ⟩
  rw [hf.firings_eq]
  rcases hJ with ⟨hlt, _, hfired⟩ | ⟨hend, hfired⟩
  · rw [if_neg (by omega), hfired]
  · rw [if_pos hend, hfired]

/-- A timer in the list the clock points to has not fired when its deadline is reached. -/
theorem not_firesFirst_of_stuck {t : Timer F X} {l : Level} {next : Stamp}
    (hbound : mgr.idx.val + n < 2 ^ 31) (hnext : next.val = mgr.idx.val + n)
    (hslot : t.slot = some (l.slot next)) (hquot : l.quot mgr.idx = l.quot next)
    (hstart : Follows mgr mgr 0 a t 0) : ¬ FiresFirstAt mgr a n := by
  intro hfirst
  rcases hstart.state with ⟨lists, timers, hR, hint, _⟩
  rcases exists_ticks (Others a) hR hint n hbound with ⟨mgr', _, _, hrun, _⟩
  have hstep : ∀ k idx t' fired, k < n → idx.val = mgr.idx.val + k → t' = t ∧ fired = 0 →
      (Timer.tick idx t').1 = t ∧ fired + (Timer.tick idx t').2 = 0 := by
    intro k idx t' fired hk hidx hJ
    have hunit : (idx.val + 1) % l.unit ≠ 0 := by
      intro hmod
      -- a whole unit would lie strictly between two stamps with the same quotient
      have hmul := Nat.div_mul_cancel (Nat.dvd_of_mod_eq_zero hmod)
      have hle : (idx.val + 1) / l.unit ≤ mgr.idx.val / l.unit := by
        have hquot' : mgr.idx.val / l.unit = next.val / l.unit := hquot
        rw [hquot']
        exact Nat.div_le_div_right (by omega)
      have hle' := Nat.mul_le_mul_right l.unit hle
      have hdiv := Nat.div_mul_le_self mgr.idx.val l.unit
      omega
    have hlt : idx.val + 1 < 86400000 * 65536 := by omega
    have htick := Timer.tick_stuck hslot hlt hunit
    rw [hJ.1, htick, hJ.2]
    exact ⟨rfl, rfl⟩
  rcases hrun.follows (J := fun _ _ t' fired => t' = t ∧ fired = 0) hbound hstart ⟨rfl, rfl⟩ hstep
    (Nat.le_refl n) with ⟨t', fired, hf, hJ⟩
  have hfired := hfirst.firings n (Nat.le_refl n) mgr' hrun
  rw [hf.firings_eq, hJ.2, if_pos rfl] at hfired
  cases hfired

omit [DecidableEq A] in
/-- The deadline of a new timer is ahead of the clock. -/
theorem next_ahead (ttl : Nat) (cb : F) (arg : X) (hpos : 0 < n) (hmax : n < timerIntervalMax)
    (hbound : mgr.idx.val + n < 2 ^ 31) :
    (newItem mgr.idx n ttl cb arg).next.val = mgr.idx.val + n ∧
      mgr.idx.val < (newItem mgr.idx n ttl cb arg).next.val := by
  have hnow : mgr.idx.val < 2 ^ 31 := by omega
  have hval : (newItem mgr.idx n ttl cb arg).next.val = mgr.idx.val + n := val_next hnow hmax
  refine ⟨hval, ?_⟩
  rw [hval]
  exact Nat.lt_add_of_pos_right hpos

theorem not_firesFirst (hreached : ∃ lists timers, Represents mgr lists timers ∧ Intervals timers)
    (hpos : 0 < n) (hmax : n < timerIntervalMax) (hbound : mgr.idx.val + n < 2 ^ 31)
    (hfresh : mgr.links.live (Loc.item a) = false)
    (hadd : ucTimerAddDo (some a) n ttl (some cb) arg mgr = some (mgr₁, some a))
    (hnot : ¬ SlotAhead mgr.idx.val (mgr.idx.val + n)) : ¬ FiresFirstAt mgr₁ a n := by
  rcases added hreached hpos hmax hfresh hadd with ⟨hidx, hstart⟩
  rcases next_ahead ttl cb arg hpos hmax hbound with ⟨hval, hlt⟩
  -- the list chosen is the one that the clock points to already
  rcases addSlot_cases hlt with ⟨hahead, _⟩ | ⟨_, l, hslot, hquot⟩
  · rw [hval] at hahead
    exact absurd hahead hnot
  · rw [← hidx] at hbound hval hquot hslot hstart
    exact not_firesFirst_of_stuck hbound hval (congrArg some hslot) hquot hstart

/-- A new timer fires at its deadline, and not before, exactly when the highest digit of the
deadline that is not 0 is not yet on the clock. -/
theorem ucTimerAdd_fires_first_iff (mem : A → UcTimerItem F X) {now : Nat}
    (hrun : Run Kept (emptyManager mem) now mgr) (hpos : 0 < n) (hmax : n < timerIntervalMax)
    (hbound : now + n < 2 ^ 31) (hfresh : mgr.links.live (Loc.item a) = false)
    (hadd : ucTimerAddDo (some a) n ttl (some cb) arg mgr = some (mgr₁, some a)) :
    FiresFirstAt mgr₁ a n ↔ SlotAhead now (now + n) := by
  have hbound₀ : (emptyManager mem).idx.val + now < 2 ^ 31 := by
    rw [val_emptyManager]
    omega
  rcases hrun.reached (emptyManager_represents mem) (intervals_empty mem) hbound₀ with
    ⟨hclock, hreached⟩
  rw [val_emptyManager, Nat.zero_add] at hclock
  rw [← hclock] at hbound ⊢
  constructor
  · intro hfirst
    by_contra hnot
    exact not_firesFirst hreached hpos hmax hbound hfresh hadd hnot hfirst
  · intro hahead
    rcases added hreached hpos hmax hfresh hadd with ⟨hidx, hstart⟩
    rcases next_ahead ttl cb arg hpos hmax hbound with ⟨hval, hlt⟩
    rcases addSlot_cases hlt with ⟨_, hplace⟩ | ⟨hnot, _⟩
    · rw [hplace, ← hidx] at hstart
      rw [← hidx] at hbound hval
      exact firesFirst_of_waiting hbound hpos hval hstart
    · rw [hval] at hnot
      exact absurd hahead hnot

end First

/-- At clock 1500 a timer of 700 milliseconds goes to the list of second 2, which is ahead. -/
theorem ucTimerAdd_fires_first_ahead :
    ∃ mgr mgr₁, Run Kept (emptyManager fun _ : Nat => blankItem) 1500 mgr ∧
      ucTimerAddDo (some 0) 700 0 (some ()) () mgr = some (mgr₁, some 0) ∧
      FiresFirstAt mgr₁ 0 700 := by
  have hbound₀ : (emptyManager fun _ : Nat => blankItem).idx.val + 1500 < 2 ^ 31 := by
    rw [val_emptyManager]
    decide
  rcases exists_ticks Kept (emptyManager_represents fun _ : Nat => blankItem)
    (intervals_empty _) 1500 hbound₀ with ⟨mgr, lists, timers, hrun, hR, _, _, hlive⟩
  have hfresh : mgr.links.live (Loc.item 0) = false := by
    rw [hlive]
    rfl
  rcases ucTimerAddDo_spec hR hfresh (by decide : 0 < 700) (by decide) 0 () () with
    ⟨mgr₁, _, hadd, _⟩
  have hiff := ucTimerAdd_fires_first_iff _ hrun (by decide) (by decide) (by decide) hfresh hadd
  exact ⟨mgr, mgr₁, hrun, hadd, hiff.2 (by simp [SlotAhead])⟩

/-- At clock 1000 a timer of 1 millisecond goes to the list of second 1, which the clock points
to already. -/
theorem ucTimerAdd_not_first :
    ¬ ∀ (mem : Nat → UcTimerItem Unit Unit) (now n ttl a : Nat)
      (mgr mgr₁ : UcTimerManager Nat Unit Unit), Run (fun _ _ => False) (emptyManager mem) now mgr →
      0 < n → n < timerIntervalMax → now + n < 2 ^ 31 → mgr.links.live (Loc.item a) = false →
      ucTimerAddDo (some a) n ttl (some ()) () mgr = some (mgr₁, some a) →
      FiresFirstAt mgr₁ a n := by
  intro hall
  let mem : Nat → UcTimerItem Unit Unit := fun _ => blankItem
  have hone : 1 < timerIntervalMax := by decide
  have hbound₀ : (emptyManager mem).idx.val + 1000 < 2 ^ 31 := by
    rw [val_emptyManager]
    decide
  rcases exists_ticks (fun _ _ => False) (emptyManager_represents mem) (intervals_empty mem) 1000
    hbound₀ with ⟨mgr, lists, timers, hrun, hR, hint, hclock, hlive⟩
  rw [val_emptyManager, Nat.zero_add] at hclock
  have hfresh : mgr.links.live (Loc.item 0) = false := by
    rw [hlive]
    rfl
  have hbound : mgr.idx.val + 1 < 2 ^ 31 := by
    rw [hclock]
    decide
  have hnot : ¬ SlotAhead mgr.idx.val (mgr.idx.val + 1) := by
    simp [hclock, SlotAhead]
  rcases ucTimerAddDo_spec hR hfresh Nat.one_pos hone 0 () () with ⟨mgr₁, _, hadd, _⟩
  have hfirst := hall mem 1000 1 0 0 mgr mgr₁ hrun Nat.one_pos hone (by decide) hfresh hadd
  exact not_firesFirst ⟨lists, timers, hR, hint⟩ Nat.one_pos hone hbound hfresh hadd hnot hfirst

end Time
end UtilsC
