import Mathlib.Data.BitVec

/-!
# A barrier with a count and a generation

Parties that meet again and again: each notes the generation and counts its arrival; the one that
completes the count clears it and starts the next generation, for which the others wait. The
counters have a fixed width and wrap.
-/

namespace CuMetal.CountingBarrier

open BitVec Function

/-- Where a party stands. `closing` and `opening` are for the party that completed the count:
before it clears the count, and before it starts the next generation. -/
inductive Phase (w : Nat)
  | outside
  | arriving (seen : BitVec w)
  | waiting (seen : BitVec w)
  | closing
  | opening
  | leaving
  deriving DecidableEq

/-- The party that completed the count has not started the next generation yet. -/
def Phase.Ends {w : Nat} : Phase w → Prop
  | .closing | .opening => True
  | _ => False

/-- The counters, and for each party where it stands and how often it has arrived and returned;
`rounds` counts the generations that were started. -/
structure State (ι : Type) (w : Nat) where
  count : BitVec w
  generation : BitVec w
  phase : ι → Phase w
  arrivals : ι → Nat
  returned : ι → Nat
  rounds : Nat

variable {ι : Type} [DecidableEq ι] {w : Nat}

/-- A step of one party, for a count that is complete at `total`. -/
inductive Step (total : BitVec w) (i : ι) : State ι w → State ι w → Prop
  | observe {s : State ι w} : s.phase i = .outside →
      Step total i s { s with phase := Function.update s.phase i (.arriving s.generation) }
  | arrive {s : State ι w} {seen : BitVec w} : s.phase i = .arriving seen →
      Step total i s
        { s with
          count := s.count + 1
          phase := Function.update s.phase i
            (if s.count + 1 = total then .closing else .waiting seen)
          arrivals := Function.update s.arrivals i (s.arrivals i + 1) }
  | close {s : State ι w} : s.phase i = .closing →
      Step total i s { s with count := 0, phase := Function.update s.phase i .opening }
  | open_ {s : State ι w} : s.phase i = .opening →
      Step total i s
        { s with
          generation := s.generation + 1
          phase := Function.update s.phase i .leaving
          rounds := s.rounds + 1 }
  | pass {s : State ι w} {seen : BitVec w} : s.phase i = .waiting seen → s.generation ≠ seen →
      Step total i s { s with phase := Function.update s.phase i .leaving }
  | leave {s : State ι w} : s.phase i = .leaving →
      Step total i s
        { s with
          phase := Function.update s.phase i .outside
          returned := Function.update s.returned i (s.returned i + 1) }

/-- What a party's phase says of its arrivals and returns when so many rounds are over. -/
def PhaseOk (first : BitVec w) (rounds arrivals returned : Nat) : Phase w → Prop
  | .outside => arrivals = rounds ∧ returned = rounds
  | .arriving seen =>
    arrivals = rounds ∧ returned = rounds ∧ seen = first + BitVec.ofNat w rounds
  | .waiting seen =>
    arrivals = returned + 1 ∧ (returned = rounds ∨ returned + 1 = rounds) ∧
      seen = first + BitVec.ofNat w returned
  | .closing | .opening => arrivals = rounds + 1 ∧ returned = rounds
  | .leaving => arrivals = rounds ∧ returned + 1 = rounds

variable [Fintype ι]

/-- The parties that have arrived in the round that is under way. -/
def State.arrived (s : State ι w) : Finset ι :=
  Finset.univ.filter fun i => s.arrivals i = s.rounds + 1

/-- The invariant of the barrier that started at generation `first`. -/
structure Invariant (first : BitVec w) (s : State ι w) : Prop where
  generation : s.generation = first + BitVec.ofNat w s.rounds
  party : ∀ i, PhaseOk first s.rounds (s.arrivals i) (s.returned i) (s.phase i)
  count : (∀ i, s.phase i ≠ .opening) → s.count = BitVec.ofNat w s.arrived.card
  cleared : ∀ i, s.phase i = .opening → s.count = 0
  complete : ∀ i, (s.phase i).Ends → ∀ j, s.arrivals j = s.rounds + 1
  alone : ∀ i j, (s.phase i).Ends → (s.phase j).Ends → i = j
  ends : (∀ i, s.arrivals i = s.rounds + 1) → ι → ∃ i, (s.phase i).Ends

namespace Invariant

variable {first total : BitVec w} {s s' : State ι w} {i : ι}

omit [DecidableEq ι] in
theorem initial (first : BitVec w) :
    Invariant first
      (⟨0, first, fun _ => .outside, fun _ => 0, fun _ => 0, 0⟩ : State ι w) where
  generation := by simp
  party := fun _ => ⟨rfl, rfl⟩
  count := fun _ => by simp [State.arrived]
  cleared := fun _ opening => by cases opening
  complete := fun _ ends => by cases ends
  alone := fun _ _ ends => by cases ends
  ends := fun arrived i => absurd (arrived i) (by simp)

omit [DecidableEq ι] in
/-- Every party has arrived in all rounds that are over, and in at most one more. -/
theorem arrivals_bounds (invariant : Invariant first s) (i : ι) :
    s.rounds ≤ s.arrivals i ∧ s.arrivals i ≤ s.rounds + 1 ∧ s.returned i ≤ s.rounds := by
  have ok := invariant.party i
  cases standing : s.phase i with
  | _ => rw [standing] at ok; simp only [PhaseOk] at ok; omega

omit [DecidableEq ι] in
/-- No party returns from a round before every party has arrived in it. -/
theorem returned_le_arrivals (invariant : Invariant first s) (i j : ι) :
    s.returned i ≤ s.arrivals j :=
  (invariant.arrivals_bounds i).2.2.trans (invariant.arrivals_bounds j).1

/-- A step that changes neither the counters nor the arrivals, and from which on no party ends the
round that did not before. -/
theorem keep (invariant : Invariant first s) {phase : Phase w} {returned : Nat}
    (ok : PhaseOk first s.rounds (s.arrivals i) returned phase)
    (before : ¬ (s.phase i).Ends) (after : ¬ phase.Ends) :
    Invariant first
      { s with
        phase := Function.update s.phase i phase
        returned := Function.update s.returned i returned } := by
  have ends : ∀ j, (update s.phase i phase j).Ends ↔ (s.phase j).Ends := by
    intro j
    by_cases same : j = i
    · subst same
      rw [update_self]
      exact ⟨fun here => absurd here after, fun here => absurd here before⟩
    · rw [update_of_ne same]
  have opens : ∀ j, update s.phase i phase j = .opening ↔ s.phase j = .opening := by
    intro j
    by_cases same : j = i
    · subst same
      rw [update_self]
      constructor
      · rintro rfl; exact absurd trivial after
      · intro here; rw [here] at before; exact absurd trivial before
    · rw [update_of_ne same]
  exact {
    generation := invariant.generation
    party := by
      intro j
      by_cases same : j = i
      · subst same
        simpa only [update_self] using ok
      · simpa only [update_of_ne same] using invariant.party j
    count := fun none_ => invariant.count fun j => mt (opens j).mpr (none_ j)
    cleared := fun j here => invariant.cleared j ((opens j).mp here)
    complete := fun j here => invariant.complete j ((ends j).mp here)
    alone := fun j k here there => invariant.alone j k ((ends j).mp here) ((ends k).mp there)
    ends := fun arrived j =>
      have ⟨k, here⟩ := invariant.ends arrived j
      ⟨k, (ends k).mpr here⟩ }

theorem observe (invariant : Invariant first s) (outside : s.phase i = .outside) :
    Invariant first { s with phase := Function.update s.phase i (.arriving s.generation) } := by
  have ok := invariant.party i
  rw [outside] at ok
  have after : PhaseOk first s.rounds (s.arrivals i) (s.returned i) (.arriving s.generation) :=
    ⟨ok.1, ok.2, invariant.generation⟩
  have kept := invariant.keep after (by rw [outside]; exact id) id
  rwa [update_eq_self] at kept

variable {seen : BitVec w}

theorem pass (invariant : Invariant first s) (waiting : s.phase i = .waiting seen)
    (changed : s.generation ≠ seen) :
    Invariant first { s with phase := Function.update s.phase i .leaving } := by
  have ok := invariant.party i
  rw [waiting] at ok
  obtain ⟨arrived, late | over_, sawFirst⟩ := ok
  · exact absurd (by rw [invariant.generation, sawFirst, late]) changed
  · have after : PhaseOk first s.rounds (s.arrivals i) (s.returned i) .leaving :=
      ⟨arrived.trans over_, over_⟩
    have kept := invariant.keep after (by rw [waiting]; exact id) id
    rwa [update_eq_self] at kept

theorem leave (invariant : Invariant first s) (leaving : s.phase i = .leaving) :
    Invariant first
      { s with
        phase := Function.update s.phase i .outside
        returned := Function.update s.returned i (s.returned i + 1) } := by
  have ok := invariant.party i
  rw [leaving] at ok
  exact invariant.keep ok (by rw [leaving]; exact id) id

omit [DecidableEq ι] in
/-- A party that has not arrived in the round under way is not counted, and no party ends it. -/
theorem unarrived (invariant : Invariant first s) (behind : s.arrivals i = s.rounds) :
    i ∉ s.arrived ∧ (∀ j, ¬ (s.phase j).Ends) ∧
      s.count = BitVec.ofNat w s.arrived.card := by
  have noEnd : ∀ j, ¬ (s.phase j).Ends := by
    intro j ends
    have arrived := invariant.complete j ends i
    omega
  refine ⟨?_, noEnd, invariant.count fun j opening => noEnd j (by rw [opening]; trivial)⟩
  simp [State.arrived, behind]

omit [DecidableEq ι] in
/-- The counter tells a full count from a smaller one: it wraps at most once, on the last party. -/
theorem full_iff (few : Fintype.card ι ≤ 2 ^ w) {count : Nat} (room : count < Fintype.card ι) :
    BitVec.ofNat w count + 1 = BitVec.ofNat w (Fintype.card ι) ↔
      count + 1 = Fintype.card ι := by
  have below : count < 2 ^ w := by omega
  constructor
  · intro same
    have values : (count + 1) % 2 ^ w = Fintype.card ι % 2 ^ w := by
      have := congrArg BitVec.toNat same
      simpa [toNat_add, Nat.add_mod] using this
    by_contra different
    rw [Nat.mod_eq_of_lt (show count + 1 < 2 ^ w by omega)] at values
    rcases lt_or_ge (Fintype.card ι) (2 ^ w) with less | greater
    · rw [Nat.mod_eq_of_lt less] at values
      exact different values
    · rw [le_antisymm few greater, Nat.mod_self] at values
      omega
  · intro same
    rw [← same, ofNat_add]
    rfl

section

variable (invariant : Invariant first s)
include invariant

/-- A party that arrives completes the count exactly when every other party has arrived. -/
theorem arrive (few : Fintype.card ι ≤ 2 ^ w) (whole : total = BitVec.ofNat w (Fintype.card ι))
    (arriving : s.phase i = .arriving seen) :
    Invariant first
      { s with
        count := s.count + 1
        phase := Function.update s.phase i
          (if s.count + 1 = total then .closing else .waiting seen)
        arrivals := Function.update s.arrivals i (s.arrivals i + 1) } := by
  have ok := invariant.party i
  rw [arriving] at ok
  obtain ⟨behind, returned, sawFirst⟩ := ok
  obtain ⟨fresh, noEnd, counted⟩ := invariant.unarrived behind
  have room : s.arrived.card < Fintype.card ι :=
    Finset.card_lt_univ_of_notMem fresh
  have completes : s.count + 1 = total ↔ s.arrived.card + 1 = Fintype.card ι := by
    rw [counted, whole]
    exact full_iff few room
  have grown : ∀ j, update s.arrivals i (s.arrivals i + 1) j = s.rounds + 1 ↔
      j ∈ insert i s.arrived := by
    intro j
    by_cases same : j = i
    · subst same
      simp [behind]
    · simp [same, State.arrived]
  have everyone : (∀ j, update s.arrivals i (s.arrivals i + 1) j = s.rounds + 1) ↔
      s.count + 1 = total := by
    rw [completes, ← Finset.card_insert_of_notMem fresh, Finset.card_eq_iff_eq_univ,
      Finset.eq_univ_iff_forall]
    exact forall_congr' grown
  have onlyHere : ∀ j, (update s.phase i
      (if s.count + 1 = total then Phase.closing else .waiting seen) j).Ends →
      j = i ∧ s.count + 1 = total := by
    intro j ends
    by_cases same : j = i
    · subst same
      rw [update_self] at ends
      refine ⟨rfl, by_contra fun short => ?_⟩
      rw [if_neg short] at ends
      exact ends
    · rw [update_of_ne same] at ends
      exact absurd ends (noEnd j)
  exact {
    generation := invariant.generation
    party := by
      intro j
      by_cases same : j = i
      · subst same
        simp only [update_self]
        split
        · exact ⟨by rw [behind], returned⟩
        · exact ⟨by rw [behind, returned], .inl returned, by rw [returned]; exact sawFirst⟩
      · simpa only [update_of_ne same] using invariant.party j
    count := by
      intro _
      have whole : State.arrived { s with
          count := s.count + 1
          phase := update s.phase i
            (if s.count + 1 = total then .closing else .waiting seen)
          arrivals := update s.arrivals i (s.arrivals i + 1) } = insert i s.arrived := by
        ext j
        rw [State.arrived, Finset.mem_filter, ← grown j]
        simp
      rw [whole, Finset.card_insert_of_notMem fresh, ofNat_add, ← counted]
      rfl
    cleared := by
      intro j opening
      dsimp only at opening
      obtain ⟨rfl, done⟩ := onlyHere j (by rw [opening]; trivial)
      simp only [update_self, if_pos done] at opening
      cases opening
    complete := fun j ends => everyone.mpr (onlyHere j ends).2
    alone := fun j k first_ second => (onlyHere j first_).1.trans (onlyHere k second).1.symm
    ends := by
      intro arrived _
      refine ⟨i, ?_⟩
      dsimp only
      rw [update_self, if_pos (everyone.mp arrived)]
      trivial }

theorem close (closing : s.phase i = .closing) :
    Invariant first { s with count := 0, phase := Function.update s.phase i .opening } := by
  have here : (s.phase i).Ends := by rw [closing]; trivial
  have ends : ∀ j, (update s.phase i .opening j).Ends → j = i := by
    intro j ends
    by_contra different
    rw [update_of_ne different] at ends
    exact different (invariant.alone j i ends here)
  have ok := invariant.party i
  rw [closing] at ok
  exact {
    generation := invariant.generation
    party := by
      intro j
      by_cases same : j = i
      · subst same
        simp only [update_self]
        exact ok
      · simpa only [update_of_ne same] using invariant.party j
    count := fun none_ => absurd (update_self ..) (none_ i)
    cleared := fun _ _ => rfl
    complete := fun _ _ => invariant.complete i here
    alone := fun j k first_ second => (ends j first_).trans (ends k second).symm
    ends := fun _ _ => ⟨i, by dsimp only; rw [update_self]; trivial⟩ }

theorem open_ (opening : s.phase i = .opening) :
    Invariant first
      { s with
        generation := s.generation + 1
        phase := Function.update s.phase i .leaving
        rounds := s.rounds + 1 } := by
  have here : (s.phase i).Ends := by rw [opening]; trivial
  have arrived := invariant.complete i here
  have noEnd : ∀ j, ¬ (update s.phase i .leaving j).Ends := by
    intro j ends
    by_cases same : j = i
    · subst same
      rw [update_self] at ends
      exact ends
    · rw [update_of_ne same] at ends
      exact same (invariant.alone j i ends here)
  exact {
    generation := by
      simp only [invariant.generation, ofNat_add, add_assoc]
      rfl
    party := by
      intro j
      have ok := invariant.party j
      have here := arrived j
      by_cases same : j = i
      · subst same
        rw [opening] at ok
        simp only [update_self]
        exact ⟨ok.1, by rw [ok.2]⟩
      · have notEnd := noEnd j
        simp only [update_of_ne same] at notEnd ⊢
        cases standing : s.phase j with
        | outside => rw [standing] at ok; exact absurd (ok.1.symm.trans here) (by omega)
        | arriving seen => rw [standing] at ok; exact absurd (ok.1.symm.trans here) (by omega)
        | waiting seen =>
          rw [standing] at ok
          exact ⟨ok.1, .inr (ok.1.symm.trans here), ok.2.2⟩
        | closing => rw [standing] at notEnd; exact absurd trivial notEnd
        | opening => rw [standing] at notEnd; exact absurd trivial notEnd
        | leaving => rw [standing] at ok; exact absurd (ok.1.symm.trans here) (by omega)
    count := by
      intro _
      have nobody : State.arrived { s with
          generation := s.generation + 1
          phase := update s.phase i .leaving
          rounds := s.rounds + 1 } = ∅ := by
        rw [State.arrived, Finset.filter_eq_empty_iff]
        intro j _
        have := arrived j
        dsimp only
        omega
      rw [nobody]
      simpa using invariant.cleared i opening
    cleared := fun j there =>
      absurd (by dsimp only at there; rw [there]; trivial) (noEnd j)
    complete := fun j there => absurd there (noEnd j)
    alone := fun j _ there => absurd there (noEnd j)
    ends := fun again _ => absurd (again i) (by have := arrived i; dsimp only; omega) }

theorem step (few : Fintype.card ι ≤ 2 ^ w) (whole : total = BitVec.ofNat w (Fintype.card ι))
    (step : Step total i s s') : Invariant first s' ∧ s.rounds ≤ s'.rounds := by
  cases step with
  | observe outside => exact ⟨invariant.observe outside, le_rfl⟩
  | arrive arriving => exact ⟨invariant.arrive few whole arriving, le_rfl⟩
  | close closing => exact ⟨invariant.close closing, le_rfl⟩
  | open_ opening => exact ⟨invariant.open_ opening, Nat.le_succ _⟩
  | pass waiting changed => exact ⟨invariant.pass waiting changed, le_rfl⟩
  | leave leaving => exact ⟨invariant.leave leaving, le_rfl⟩

end

omit [DecidableEq ι] in
/-- Once every party has caught up with a party's arrivals, the round is over, or a party is about
to end it. -/
theorem caught_up (invariant : Invariant first s) (caught : ∀ j, s.arrivals i ≤ s.arrivals j) :
    s.arrivals i = s.rounds ∨ (s.arrivals i = s.rounds + 1 ∧ ∃ j, (s.phase j).Ends) := by
  have bounds := invariant.arrivals_bounds i
  rcases lt_or_ge s.rounds (s.arrivals i) with ahead | behind
  · have here : s.arrivals i = s.rounds + 1 := by omega
    refine .inr ⟨here, invariant.ends (fun j => ?_) i⟩
    have upper := (invariant.arrivals_bounds j).2.1
    have lower := caught j
    omega
  · exact .inl (by omega)

omit [DecidableEq ι] in
theorem changed (invariant : Invariant first s) (wide : 0 < w)
    (waiting : s.phase i = .waiting seen) (over_ : s.arrivals i ≤ s.rounds) :
    s.generation ≠ seen := by
  have ok := invariant.party i
  rw [waiting] at ok
  obtain ⟨arrived, late, sawFirst⟩ := ok
  have next : s.rounds = s.returned i + 1 := by omega
  rw [invariant.generation, sawFirst, next, ofNat_add]
  intro same
  have one := BitVec.add_right_eq_self.mp ((BitVec.add_right_inj first).mp same)
  have value := congrArg BitVec.toNat one
  rw [toNat_ofNat, toNat_ofNat,
    Nat.mod_eq_of_lt (Nat.one_lt_two_pow wide.ne')] at value
  simp at value

end Invariant

end CuMetal.CountingBarrier
