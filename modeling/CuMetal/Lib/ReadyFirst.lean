import Mathlib.Data.Set.Finite.List

/-!
# Ready items first

Items that need other items come one after the other: next is always the earliest item of the list
that has not come and whose needs have all come. This orders a whole list exactly if no item needs
itself through others.
-/

namespace CuMetal.ReadyFirst

open List

variable {ν : Type*} {needs : ν → List ν}

/-- The item has not come, and all that it needs has. -/
def Ready (needs : ν → List ν) (emitted : List ν) (item : ν) : Prop :=
  item ∉ emitted ∧ ∀ need ∈ needs item, need ∈ emitted

instance [DecidableEq ν] (emitted : List ν) (item : ν) :
    Decidable (Ready needs emitted item) :=
  inferInstanceAs (Decidable (_ ∧ _))

/-- The second item is one of the list that the first one needs. -/
def Needs (needs : ν → List ν) (items : List ν) (item need : ν) : Prop :=
  item ∈ items ∧ need ∈ needs item

/-- No item of the list needs itself, also not through others. -/
def Acyclic (needs : ν → List ν) (items : List ν) : Prop :=
  ∀ item, ¬ Relation.TransGen (Needs needs items) item item

def Closed (needs : ν → List ν) (items : List ν) : Prop :=
  ∀ item ∈ items, ∀ need ∈ needs item, need ∈ items

section

variable [DecidableEq ν]

/-- Every item is the earliest one of the list that is ready after those before it. -/
def EarliestReady (needs : ν → List ν) (items ordered : List ν) : Prop :=
  ∀ before item after, ordered = before ++ item :: after →
    items.find? (fun item => Ready needs before item) = some item

/-- Takes the earliest ready item so many times. -/
def order (needs : ν → List ν) (items : List ν) : Nat → List ν → Option (List ν)
  | 0, emitted => some emitted
  | rounds + 1, emitted =>
    match items.find? (fun item => Ready needs emitted item) with
    | none => none
    | some item => order needs items rounds (emitted ++ [item])

variable {items ordered emitted : List ν}

theorem EarliestReady.nil : EarliestReady needs items [] := by
  intro before item after whole
  cases before <;> cases whole

variable {item : ν} {rounds : Nat}

theorem EarliestReady.snoc (earliest : EarliestReady needs items emitted)
    (found : items.find? (fun item => Ready needs emitted item) = some item) :
    EarliestReady needs items (emitted ++ [item]) := by
  intro before other after whole
  rcases eq_nil_or_concat after with rfl | ⟨after, last, rfl⟩
  · obtain ⟨rfl, same⟩ := append_inj' whole rfl
    cases same
    exact found
  · rw [concat_eq_append, ← cons_append, ← append_assoc] at whole
    obtain ⟨rfl, _⟩ := append_inj' whole rfl
    exact earliest before other after rfl

theorem EarliestReady.ready (earliest : EarliestReady needs items ordered) {before after : List ν}
    (whole : ordered = before ++ item :: after) : item ∈ items ∧ Ready needs before item := by
  have found := earliest before item after whole
  exact ⟨mem_of_find?_eq_some found, by simpa using find?_some found⟩

theorem EarliestReady.subset (earliest : EarliestReady needs items ordered) : ordered ⊆ items := by
  intro item member
  obtain ⟨before, after, whole⟩ := append_of_mem member
  exact (earliest.ready whole).1

theorem EarliestReady.nodup (earliest : EarliestReady needs items ordered) : ordered.Nodup := by
  induction ordered using reverseRecOn with
  | nil => exact nodup_nil
  | append_singleton ordered item ih =>
    have whole : ordered ++ [item] = ordered ++ item :: [] := rfl
    have fresh := (earliest.ready whole).2.1
    refine nodup_append.mpr ⟨ih ?_, nodup_singleton item, ?_⟩
    · intro before other after whole
      exact earliest before other (after ++ [item]) (by simp [whole])
    · rintro a member b last rfl
      exact fresh (mem_singleton.mp last ▸ member)

theorem order_earliest (earliest : EarliestReady needs items emitted)
    (ran : order needs items rounds emitted = some ordered) :
    EarliestReady needs items ordered ∧ ordered.length = emitted.length + rounds := by
  induction rounds generalizing emitted with
  | zero =>
    cases ran
    exact ⟨earliest, rfl⟩
  | succ rounds ih =>
    rw [order] at ran
    cases found : items.find? (fun item => Ready needs emitted item) with
    | none => rw [found] at ran; cases ran
    | some item =>
      rw [found] at ran
      obtain ⟨whole, length⟩ := ih (earliest.snoc found) ran
      refine ⟨whole, ?_⟩
      rw [length, length_append, length_singleton]
      omega

/-- In an order of the whole list the needs of an item have a smaller index. -/
theorem EarliestReady.idxOf_lt (earliest : EarliestReady needs items ordered) {need : ν}
    (member : item ∈ ordered) (needed : need ∈ needs item) :
    ordered.idxOf need < ordered.idxOf item := by
  obtain ⟨before, after, whole⟩ := append_of_mem member
  obtain ⟨fresh, come⟩ := (earliest.ready whole).2
  rw [whole, idxOf_append_of_mem (come need needed), idxOf_append_of_notMem fresh,
    idxOf_cons_self, add_zero]
  exact idxOf_lt_length_of_mem (come need needed)

theorem EarliestReady.acyclic (earliest : EarliestReady needs items ordered)
    (all : items ⊆ ordered) : Acyclic needs items := by
  have descends : ∀ {item need}, Relation.TransGen (Needs needs items) item need →
      ordered.idxOf need < ordered.idxOf item := by
    intro item need path
    induction path with
    | single needed => exact earliest.idxOf_lt (all needed.1) needed.2
    | tail _ needed ih => exact lt_trans (earliest.idxOf_lt (all needed.1) needed.2) ih
  intro item cycle
  exact lt_irrefl _ (descends cycle)

/-- While items are left, one of them is ready: going from an item to one that it needs and that
has not come ends, as the list is finite. -/
theorem exists_ready (acyclic : Acyclic needs items) (closed : Closed needs items) {left : ν}
    (member : left ∈ items) (fresh : left ∉ emitted) :
    ∃ item ∈ items, Ready needs emitted item := by
  let below : {item // item ∈ items} → {item // item ∈ items} → Prop :=
    fun need item => Relation.TransGen (Needs needs items) item need
  have : Finite {item // item ∈ items} := (finite_toSet items).to_subtype
  have : IsTrans {item // item ∈ items} below := ⟨fun _ _ _ first second => second.trans first⟩
  have : Std.Irrefl below := ⟨fun item => acyclic item⟩
  have wellFounded : WellFounded below := Finite.wellFounded_of_trans_of_irrefl below
  obtain ⟨⟨item, inside⟩, new, least⟩ :=
    wellFounded.has_min {item | item.1 ∉ emitted} ⟨⟨left, member⟩, fresh⟩
  refine ⟨item, inside, new, ?_⟩
  intro need needed
  by_contra missing
  exact least ⟨need, closed item inside need needed⟩ missing (.single ⟨inside, needed⟩)

theorem order_of_acyclic (acyclic : Acyclic needs items) (closed : Closed needs items)
    (earliest : EarliestReady needs items emitted) (rest : emitted.length + rounds = items.length)
    (distinct : items.Nodup) : (order needs items rounds emitted).isSome := by
  induction rounds generalizing emitted with
  | zero => rfl
  | succ rounds ih =>
    have missing : ∃ left ∈ items, left ∉ emitted := by
      by_contra none
      have all : items ⊆ emitted := by
        intro item member
        by_contra fresh
        exact none ⟨item, member, fresh⟩
      have := (distinct.subperm all).length_le
      omega
    obtain ⟨left, member, fresh⟩ := missing
    obtain ⟨item, inside, ready⟩ := exists_ready acyclic closed member fresh
    rw [order]
    cases found : items.find? (fun item => Ready needs emitted item) with
    | none => exact absurd ready (by simpa using find?_eq_none.mp found item inside)
    | some next =>
      refine ih (earliest.snoc found) ?_
      rw [length_append, length_singleton]
      omega

theorem EarliestReady.perm (earliest : EarliestReady needs items ordered)
    (length : ordered.length = items.length) : ordered.Perm items :=
  (earliest.nodup.subperm earliest.subset).perm_of_length_le length.ge

theorem order_isSome_iff (closed : Closed needs items) (distinct : items.Nodup) :
    (order needs items items.length []).isSome ↔ Acyclic needs items := by
  constructor
  · intro ran
    obtain ⟨ordered, ran⟩ := Option.isSome_iff_exists.mp ran
    obtain ⟨earliest, length⟩ := order_earliest .nil ran
    have all := (earliest.perm (by simpa using length)).symm.subset
    exact earliest.acyclic all
  · intro acyclic
    exact order_of_acyclic acyclic closed .nil (by simp) distinct

end

end CuMetal.ReadyFirst
