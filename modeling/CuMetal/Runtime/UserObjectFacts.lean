import CuMetal.Runtime.UserObjects

/-!
# References to user objects

The destructor of a user object runs once, when nobody owns a reference any more, as long as no
counter wraps around and the caller moves and releases only what it owns.
-/

open CuMetal.Runtime (CudaError)

namespace CuMetal.UserObjects

open Guarded BitVec List Option Prod AssocMap State UserReferences

/-- The destructor of an object has been called exactly if neither the caller nor a graph owns a
reference to it, with what the object was created with, and once. -/
structure Kept (l : Ledger) : Prop where
  once : (l.state.objects.calls.map DestructorCall.object).Nodup
  exact : ∀ handle account, l.accounts.find? handle = some account →
    ((∃ call ∈ l.state.objects.calls, call.object = handle) ↔
      account.owned + l.state.held handle = 0)
  own : ∀ call ∈ l.state.objects.calls, ∃ account, l.accounts.find? call.object = some account ∧
    call.destroy = account.destroy ∧ call.payload = account.ptr
  free : ∀ call ∈ l.state.objects.calls, ∀ graph ∈ l.state.graphs,
    graph.2.find? call.object = none

/-- The counter of the object has room for as many references. -/
def Fits (objects : Objects) (handle : Nat) (count : BitVec 32) : Prop :=
  ∀ object ∈ objects.live.find? handle, object.refcount.toNat + count.toNat < 2 ^ 32

/-- The caller owns as many references to the object. -/
def Owns (accounts : AssocMap Nat Account) (handle : Nat) (count : BitVec 32) : Prop :=
  ∃ account ∈ accounts.find? handle, (count.toNat : Int) ≤ account.owned

/-- No counter wraps around, and the caller gives only what it owns, unless the counter of the
object shows that it is too much. -/
def Accounted (l : Ledger) : Action → Prop
  | .userObjectRetain (some handle) count => Fits l.state.objects handle count
  | .userObjectRelease (some handle) count =>
    Owns l.accounts handle count ∨
      ∀ object ∈ l.state.objects.live.find? handle, object.refcount < count
  | .graphRetainUserObject (some _) (some handle) count flags =>
    if flags = cudaGraphUserObjectMove then count = 0 ∨ Owns l.accounts handle count
    else flags ≠ 0 ∨ Fits l.state.objects handle count
  | _ => True

instance (objects : Objects) (handle : Nat) (count : BitVec 32) :
    Decidable (Fits objects handle count) :=
  inferInstanceAs (Decidable (∀ _ ∈ _, _))

instance (accounts : AssocMap Nat Account) (handle : Nat) (count : BitVec 32) :
    Decidable (Owns accounts handle count) :=
  inferInstanceAs (Decidable (∃ _ ∈ _, _))

instance (l : Ledger) : (action : Action) → Decidable (Accounted l action)
  | .userObjectRetain (some _) _ => inferInstanceAs (Decidable (Fits _ _ _))
  | .userObjectRelease (some handle) count => inferInstanceAs (Decidable
      (Owns l.accounts handle count ∨
        ∀ object ∈ l.state.objects.live.find? handle, object.refcount < count))
  | .graphRetainUserObject (some _) (some handle) count flags => inferInstanceAs (Decidable
      (if flags = cudaGraphUserObjectMove then count = 0 ∨ Owns l.accounts handle count
        else flags ≠ 0 ∨ Fits l.state.objects handle count))
  | .userObjectCreate .. | .userObjectRetain none _ | .userObjectRelease none _
  | .graphRetainUserObject none _ _ _ | .graphRetainUserObject (some _) none _ _
  | .graphReleaseUserObject .. | .graphCreate .. | .graphClone .. | .graphDestroy _ =>
    .isTrue trivial

/-! ## Counters and accounts -/

/-- An object in memory counts what the caller and the graphs own together, which is something. Of
an object that is not there nobody owns a reference. -/
def Settled : Option UserObject → Option Account → Nat → Prop
  | some object, some account, held => account.ptr = object.ptr ∧
      account.destroy = object.destroy ∧ 0 ≤ account.owned ∧
      account.owned + held = object.refcount.toNat ∧ object.refcount ≠ 0
  | none, some account, held => account.owned = 0 ∧ held = 0
  | none, none, held => held = 0
  | some _, none, _ => False

/-- The invariant of the objects, with what the graphs hold. -/
structure Balanced (objects : Objects) (accounts : AssocMap Nat Account) (held : Nat → Nat) :
    Prop where
  settled : ∀ handle, Settled (objects.live.find? handle) (accounts.find? handle) (held handle)
  called : ∀ handle account, accounts.find? handle = some account →
    ((∃ call ∈ objects.calls, call.object = handle) ↔ objects.live.find? handle = none)
  own : ∀ call ∈ objects.calls, ∃ account, accounts.find? call.object = some account ∧
    call.destroy = account.destroy ∧ call.payload = account.ptr
  once : (objects.calls.map DestructorCall.object).Nodup
  fresh : ∀ handle, objects.next ≤ handle → accounts.find? handle = none

section Balanced

variable {objects : Objects} {accounts accounts' : AssocMap Nat Account} {held held' : Nat → Nat}
  {handle : Nat} {count : BitVec 32} {object : UserObject} {change : Int}

theorem Balanced.account (balanced : Balanced objects accounts held)
    (live : objects.live.find? handle = some object) :
    ∃ account, accounts.find? handle = some account ∧ account.ptr = object.ptr ∧
      account.destroy = object.destroy ∧ 0 ≤ account.owned ∧
      account.owned + held handle = object.refcount.toNat ∧ object.refcount ≠ 0 := by
  have settled := balanced.settled handle
  rw [live] at settled
  cases known : accounts.find? handle with
  | none =>
    rw [known] at settled
    exact settled.elim
  | some account =>
    rw [known] at settled
    exact ⟨account, rfl, settled⟩

theorem Balanced.live_of_held (balanced : Balanced objects accounts held) (handle : Nat)
    (some_ : held handle ≠ 0) : ∃ object, objects.live.find? handle = some object := by
  have settled := balanced.settled handle
  cases live : objects.live.find? handle with
  | some object => exact ⟨object, rfl⟩
  | none =>
    rw [live] at settled
    cases known : accounts.find? handle with
    | none =>
      rw [known] at settled
      exact absurd settled some_
    | some account =>
      rw [known] at settled
      exact absurd settled.2 some_

theorem Balanced.live_of_owned (balanced : Balanced objects accounts held) {account : Account}
    (known : accounts.find? handle = some account) (some_ : account.owned ≠ 0) :
    ∃ object, objects.live.find? handle = some object := by
  have settled := balanced.settled handle
  cases live : objects.live.find? handle with
  | some object => exact ⟨object, rfl⟩
  | none =>
    rw [live, known] at settled
    exact absurd settled.1 some_

/-- What the caller and the graphs own of one object together changes by as much. -/
structure Moves (accounts : AssocMap Nat Account) (held : Nat → Nat)
    (accounts' : AssocMap Nat Account) (held' : Nat → Nat) (handle : Nat) (change : Int) :
    Prop where
  others : ∀ k, k ≠ handle → accounts'.find? k = accounts.find? k ∧ held' k = held k
  here : ∀ account, accounts.find? handle = some account → 0 ≤ account.owned →
    ∃ account', accounts'.find? handle = some account' ∧ account'.ptr = account.ptr ∧
      account'.destroy = account.destroy ∧ 0 ≤ account'.owned ∧
      account'.owned + held' handle = account.owned + held handle + change

theorem Moves.credit (room : ∀ account, accounts.find? handle = some account →
    0 ≤ account.owned + change) :
    Moves accounts held (credit accounts (some handle) change) held handle change where
  others := by
    intro k different
    simp [UserObjects.credit, find?_change, different]
  here := by
    intro account known _
    refine ⟨{ account with owned := account.owned + change }, ?_, rfl, rfl, room account known, ?_⟩
    · simp [UserObjects.credit, find?_change, known]
    · dsimp only
      omega

theorem Moves.graphs (others : ∀ k, k ≠ handle → held' k = held k)
    (here : (held' handle : Int) = held handle + change) :
    Moves accounts held accounts held' handle change where
  others := fun k different => ⟨rfl, others k different⟩
  here := fun account known owned => ⟨account, known, rfl, rfl, owned, by omega⟩

theorem Moves.transfer (owns : ∀ account, accounts.find? handle = some account →
      (count.toNat : Int) ≤ account.owned)
    (others : ∀ k, k ≠ handle → held' k = held k)
    (here : held' handle = held handle + count.toNat) :
    Moves accounts held (UserObjects.credit accounts (some handle) (-count.toNat)) held' handle
      0 where
  others := by
    intro k different
    simp [UserObjects.credit, find?_change, different, others k different]
  here := by
    intro account known _
    refine ⟨{ account with owned := account.owned + -count.toNat }, ?_, rfl, rfl, ?_, ?_⟩
    · simp [UserObjects.credit, find?_change, known]
    · have := owns account known
      dsimp only
      omega
    · dsimp only
      omega

variable {objects' : Objects}

theorem releaseUserObject_false {object : Option Nat}
    (released : releaseUserObject objects object count = some (false, objects')) :
    objects' = objects := by
  unfold releaseUserObject at released
  split at released
  · cases released
    rfl
  · split at released
    · cases released
      rfl
    · split at released
      · cases released
      · split at released
        · cases released
          rfl
        · dsimp only at released
          split at released <;> cases released

/-- A release that succeeds is of an object in memory that counts as many references. -/
theorem releaseUserObject_true {object : Option Nat}
    (released : releaseUserObject objects object count = some (true, objects')) :
    ∃ handle found, object = some handle ∧ count ≠ 0 ∧ objects.live.find? handle = some found ∧
      ¬ found.refcount < count := by
  unfold releaseUserObject at released
  split at released
  · cases released
  · split at released
    · cases released
    · split at released
      · cases released
      · split at released
        · cases released
        · next some_ _ found live enough => exact ⟨_, found, rfl, some_, live, enough⟩

variable {refcount : BitVec 32}

section

variable (balanced : Balanced objects accounts held)
  (live : objects.live.find? handle = some object)

include balanced live

/-- The counter of an object in memory changes with what is owned of it. -/
theorem Balanced.recount (moves : Moves accounts held accounts' held' handle change)
    (f : UserObject → UserObject) (counts : f object = { object with refcount })
    (counted : (refcount.toNat : Int) = object.refcount.toNat + change) (some_ : refcount ≠ 0) :
    Balanced { objects with live := objects.live.change handle f } accounts' held' := by
  obtain ⟨account, known, ptr, destroy, owned, sum, -⟩ := balanced.account live
  obtain ⟨account', known', ptr', destroy', owned', sum'⟩ := moves.here account known owned
  constructor
  case settled =>
    intro k
    rw [find?_change]
    by_cases same : k = handle
    · subst same
      rw [if_pos rfl, live, map_some, counts, known']
      exact ⟨ptr'.trans ptr, destroy'.trans destroy, owned', by simp only; omega, some_⟩
    · rw [if_neg same, (moves.others k same).1, (moves.others k same).2]
      exact balanced.settled k
  case called =>
    intro k other found
    rw [find?_change]
    by_cases same : k = handle
    · subst same
      have before := balanced.called k account known
      simpa [live] using before
    · rw [if_neg same]
      exact balanced.called k other ((moves.others k same).1 ▸ found)
  case own =>
    intro call mem
    have dead := (balanced.called call.object)
    obtain ⟨other, found, rest⟩ := balanced.own call mem
    have gone := (dead other found).mp ⟨call, mem, rfl⟩
    have different : call.object ≠ handle := by
      intro same
      rw [same, live] at gone
      cases gone
    exact ⟨other, (moves.others _ different).1.trans found, rest⟩
  case once => exact balanced.once
  case fresh =>
    intro k later
    have different : k ≠ handle := by
      rintro rfl
      rw [balanced.fresh k later] at known
      cases known
    rw [(moves.others k different).1]
    exact balanced.fresh k later

/-- The last reference goes: the object is deleted and its destructor called. -/
theorem Balanced.remove (moves : Moves accounts held accounts' held' handle change)
    (counted : (object.refcount.toNat : Int) + change = 0) :
    Balanced { objects with
      live := objects.live.remove handle,
      calls := objects.calls ++ [⟨handle, object.destroy, object.ptr⟩] } accounts' held' := by
  obtain ⟨account, known, ptr, destroy, owned, sum, -⟩ := balanced.account live
  obtain ⟨account', known', ptr', destroy', owned', sum'⟩ := moves.here account known owned
  have uncalled : ∀ call ∈ objects.calls, call.object ≠ handle := by
    intro call mem same
    have gone := (balanced.called handle account known).mp ⟨call, mem, same⟩
    rw [live] at gone
    cases gone
  constructor
  case settled =>
    intro k
    rw [find?_remove]
    by_cases same : k = handle
    · subst same
      rw [if_pos rfl, known']
      exact ⟨by omega, by omega⟩
    · rw [if_neg same, (moves.others k same).1, (moves.others k same).2]
      exact balanced.settled k
  case called =>
    intro k other found
    rw [find?_remove]
    by_cases same : k = handle
    · subst same
      simp
    · rw [if_neg same, ← balanced.called k other ((moves.others k same).1 ▸ found)]
      simp [Ne.symm same]
  case own =>
    intro call mem
    rcases mem_append.mp mem with before | new
    · obtain ⟨other, found, rest⟩ := balanced.own call before
      exact ⟨other, (moves.others _ (uncalled call before)).1.trans found, rest⟩
    · rw [mem_singleton.mp new]
      exact ⟨account', known', (destroy'.trans destroy).symm, (ptr'.trans ptr).symm⟩
  case once =>
    rw [map_append, nodup_append]
    refine ⟨balanced.once, nodup_singleton _, ?_⟩
    rintro _ before _ new rfl
    obtain ⟨call, mem, same⟩ := mem_map.mp before
    exact uncalled call mem (same.trans (mem_singleton.mp new))
  case fresh =>
    intro k later
    have different : k ≠ handle := by
      rintro rfl
      rw [balanced.fresh k later] at known
      cases known
    rw [(moves.others k different).1]
    exact balanced.fresh k later

theorem Balanced.release (some_ : count ≠ 0)
    (enough : ¬ object.refcount < count)
    (moves : Moves accounts held accounts' held' handle (-count.toNat)) :
    ∃ objects', releaseUserObject objects (some handle) count = some (true, objects') ∧
      Balanced objects' accounts' held' := by
  have left : (object.refcount - count).toNat = object.refcount.toNat - count.toNat :=
    toNat_sub_of_le (not_lt.mp enough)
  have le : count.toNat ≤ object.refcount.toNat := not_lt.mp enough
  simp only [releaseUserObject, some_, if_false, live, enough]
  split
  next more =>
    exact ⟨_, rfl, balanced.recount live moves _ rfl (by omega) more⟩
  next last =>
    have zero : object.refcount - count = 0 := by simpa using last
    rw [zero] at left
    refine ⟨_, rfl, balanced.remove live moves ?_⟩
    have : (0 : BitVec 32).toNat = 0 := rfl
    omega

theorem Balanced.transfer
    (moves : Moves accounts held accounts' held' handle 0) : Balanced objects accounts' held' := by
  obtain ⟨-, -, -, -, -, -, some_⟩ := balanced.account live
  have same : objects.live.change handle id = objects.live := by
    refine (map_congr_left fun binding _ => ?_).trans (map_id _)
    simp
  have recounted := balanced.recount live moves id rfl (by omega) some_
  rwa [same] at recounted

end

theorem Balanced.create (balanced : Balanced objects accounts held) {ptr : BitVec 64}
    {destroy : HostFn} (some_ : refcount ≠ 0) :
    Balanced { objects with
      live := objects.live ++ [(objects.next, ⟨ptr, destroy, refcount⟩)]
      next := objects.next + 1 }
      (accounts ++ [(objects.next, ⟨ptr, destroy, refcount.toNat⟩)]) held := by
  have unknown := balanced.fresh objects.next (le_refl _)
  have settled := balanced.settled objects.next
  rw [unknown] at settled
  have unborn : objects.live.find? objects.next = none := by
    cases live : objects.live.find? objects.next with
    | none => rfl
    | some object =>
      rw [live] at settled
      exact settled.elim
  rw [unborn] at settled
  have unheld : held objects.next = 0 := settled
  have old : ∀ k account, accounts.find? k = some account → k ≠ objects.next := by
    rintro k account known rfl
    rw [unknown] at known
    cases known
  have lives : ∀ k, AssocMap.find? (objects.live ++ [(objects.next, ⟨ptr, destroy, refcount⟩)]) k =
      if k = objects.next then some ⟨ptr, destroy, refcount⟩ else objects.live.find? k := by
    intro k
    rw [AssocMap.find?_append]
    by_cases same : k = objects.next
    · subst same
      simp [unborn, AssocMap.find?]
    · simp [same, Ne.symm same, AssocMap.find?]
  have accounts_ : ∀ k, find?
      (accounts ++ [(objects.next, (⟨ptr, destroy, refcount.toNat⟩ : Account))]) k =
      if k = objects.next then some ⟨ptr, destroy, refcount.toNat⟩ else accounts.find? k := by
    intro k
    rw [AssocMap.find?_append]
    by_cases same : k = objects.next
    · subst same
      simp [unknown, AssocMap.find?]
    · simp [same, Ne.symm same, AssocMap.find?]
  constructor
  case settled =>
    intro k
    rw [lives, accounts_]
    by_cases same : k = objects.next
    · subst same
      simp only [if_true, unheld]
      exact ⟨rfl, rfl, by simp, by simp, some_⟩
    · simp only [same, if_false]
      exact balanced.settled k
  case called =>
    intro k account known
    rw [lives]
    rw [accounts_] at known
    by_cases same : k = objects.next
    · subst same
      simp only [if_true, reduceCtorEq, iff_false]
      rintro ⟨call, mem, calls_next⟩
      obtain ⟨other, found, -⟩ := balanced.own call mem
      exact old _ _ found calls_next
    · simp only [same, if_false] at known ⊢
      exact balanced.called k account known
  case own =>
    intro call mem
    obtain ⟨account, known, rest⟩ := balanced.own call mem
    exact ⟨account, by rw [accounts_, if_neg (old _ _ known)]; exact known, rest⟩
  case once => exact balanced.once
  case fresh =>
    intro k later
    have later : objects.next + 1 ≤ k := later
    rw [accounts_, if_neg (by omega)]
    exact balanced.fresh k (by omega)

theorem Balanced.retain (balanced : Balanced objects accounts held)
    (live : objects.live.find? handle = some object) (fits : Fits objects handle count)
    (moves : Moves accounts held accounts' held' handle count.toNat) :
    Balanced { objects with live := objects.live.change handle fun o =>
      { o with refcount := o.refcount + count } } accounts' held' := by
  have room := fits object live
  have sum : (object.refcount + count).toNat = object.refcount.toNat + count.toNat := by
    rw [toNat_add, Nat.mod_eq_of_lt room]
  obtain ⟨-, -, -, -, -, -, some_⟩ := balanced.account live
  have more : object.refcount + count ≠ 0 := by
    intro zero
    rw [zero] at sum
    apply some_
    apply eq_of_toNat_eq
    have : (0 : BitVec 32).toNat = 0 := rfl
    omega
  exact balanced.recount live moves _ rfl (by omega) more

end Balanced

/-! ## What graphs hold -/

section Graphs

variable {userObjects userObjects' : UserReferences} {handle : Nat} {count held : BitVec 32}

/-- The references of a graph: an object has one entry, and no entry counts nothing. -/
structure Listed (userObjects : UserReferences) : Prop where
  distinct : (userObjects.map Prod.fst).Nodup
  some_ : ∀ entry ∈ userObjects, entry.2 ≠ 0

theorem heldOf_of_find? (found : userObjects.find? handle = some held) :
    userObjects.heldOf handle = held.toNat := by
  simp [heldOf, found]

theorem heldOf_of_absent (absent : userObjects.find? handle = none) :
    userObjects.heldOf handle = 0 := by
  simp [heldOf, absent]

theorem Listed.heldOf_ne_zero (listed : Listed userObjects)
    (found : userObjects.find? handle = some held) : userObjects.heldOf handle ≠ 0 := by
  rw [heldOf_of_find? found]
  have some_ := listed.some_ _ (mem_of_find? found)
  intro zero
  exact some_ (eq_of_toNat_eq zero)

theorem heldOf_assign (other : Nat) :
    heldOf (userObjects.assign handle count) other =
      if other = handle then count.toNat else userObjects.heldOf other := by
  unfold heldOf
  rw [find?_assign]
  by_cases same : handle = other
  · simp [same]
  · simp [same, Ne.symm same]

theorem Listed.assign (listed : Listed userObjects) (some_ : count ≠ 0) :
    Listed (userObjects.assign handle count) where
  distinct := nodup_assign listed.distinct handle count
  some_ := by
    intro entry mem
    rcases mem_assign mem with rfl | before
    · exact some_
    · exact listed.some_ entry before

theorem heldOf_remove (other : Nat) :
    heldOf (userObjects.remove handle) other =
      if other = handle then 0 else userObjects.heldOf other := by
  unfold heldOf
  rw [find?_remove]
  by_cases same : other = handle <;> simp [same]

theorem Listed.remove (listed : Listed userObjects) : Listed (userObjects.remove handle) where
  distinct := nodup_remove listed.distinct
  some_ := fun entry mem => listed.some_ entry (mem_remove.mp mem).1

theorem Listed.retain (listed : Listed userObjects) (handle : Nat) (some_ : count ≠ 0)
    (fits : userObjects.heldOf handle + count.toNat < 2 ^ 32) :
    Listed (userObjects.retain handle count) ∧ ∀ other,
      (userObjects.retain handle count).heldOf other =
        if other = handle then userObjects.heldOf handle + count.toNat
        else userObjects.heldOf other := by
  have small : count.toNat ≠ 0 := fun zero => some_ (eq_of_toNat_eq zero)
  unfold UserReferences.retain
  cases found : userObjects.find? handle with
  | none =>
    have absent := find?_eq_none_iff.mp found
    dsimp only
    rw [heldOf_of_absent found, ← assign_of_absent absent count]
    refine ⟨listed.assign some_, fun other => ?_⟩
    rw [heldOf_assign, zero_add]
  | some held =>
    rw [heldOf_of_find? found] at fits ⊢
    have sum : (held + count).toNat = held.toNat + count.toNat := by
      rw [toNat_add, Nat.mod_eq_of_lt fits]
    have more : held + count ≠ 0 := by
      intro zero
      rw [zero] at sum
      have : (0 : BitVec 32).toNat = 0 := rfl
      omega
    refine ⟨listed.assign more, fun other => ?_⟩
    rw [heldOf_assign, sum]

theorem Listed.release (listed : Listed userObjects)
    (found : userObjects.find? handle = some held) (enough : ¬ held < count) :
    Listed (userObjects.release handle (held - count)) ∧ ∀ other,
      (userObjects.release handle (held - count)).heldOf other =
        if other = handle then userObjects.heldOf handle - count.toNat
        else userObjects.heldOf other := by
  have left : (held - count).toNat = held.toNat - count.toNat :=
    toNat_sub_of_le (not_lt.mp enough)
  unfold UserReferences.release
  rw [heldOf_of_find? found, ← left]
  split
  next last =>
    rw [eraseP_eq_remove listed.distinct]
    refine ⟨listed.remove, fun other => ?_⟩
    rw [heldOf_remove, last]
    rfl
  next more =>
    refine ⟨listed.assign more, fun other => ?_⟩
    rw [heldOf_assign]

variable {s : State} {graph : Nat}

/-- What the graphs hold after the references of one of them have changed. -/
theorem held_change (distinct : (s.graphs.map Prod.fst).Nodup)
    (known : s.graphs.find? graph = some userObjects) (userObjects' : UserReferences)
    (object : Nat) :
    State.held { s with graphs := s.graphs.change graph fun _ => userObjects' } object +
      userObjects.heldOf object = s.held object + userObjects'.heldOf object :=
  total_change (fun _ => userObjects') _ distinct (mem_of_find? known)

theorem held_moves (accounts : AssocMap Nat Account)
    (distinct : (s.graphs.map Prod.fst).Nodup) (known : s.graphs.find? graph = some userObjects)
    (change : Int) (others : ∀ k, k ≠ handle → userObjects'.heldOf k = userObjects.heldOf k)
    (here : (userObjects'.heldOf handle : Int) = userObjects.heldOf handle + change) :
    Moves accounts s.held accounts
      (State.held { s with graphs := s.graphs.change graph fun _ => userObjects' }) handle
      change := by
  refine .graphs (fun k different => ?_) ?_
  · have whole := held_change distinct known userObjects' k
    have part := others k different
    omega
  · have whole := held_change distinct known userObjects' handle
    omega

theorem heldOf_le_held (distinct : (s.graphs.map Prod.fst).Nodup)
    (known : s.graphs.find? graph = some userObjects) (object : Nat) :
    userObjects.heldOf object ≤ s.held object := by
  have without := total_remove (fun graph => graph.heldOf object) distinct
    (mem_of_find? known)
  unfold held
  omega

end Graphs

/-- The graphs are different ones, and each lists what it holds. -/
structure GraphsListed (graphs : AssocMap Nat UserReferences) (nextGraph : Nat) : Prop where
  distinct : (graphs.map Prod.fst).Nodup
  listed : ∀ graph ∈ graphs, Listed graph.2
  numbered : ∀ graph ∈ graphs, graph.1 < nextGraph

variable {graphs : AssocMap Nat UserReferences} {nextGraph : Nat}

theorem GraphsListed.change {graph : Nat}
    {userObjects : UserReferences} (g : GraphsListed graphs nextGraph)
    (listed : Listed userObjects) :
    GraphsListed (graphs.change graph fun _ => userObjects) nextGraph where
  distinct := by
    rw [keys_change]
    exact g.distinct
  listed := by
    intro binding mem
    rcases mem_change.mp mem with ⟨before, -⟩ | ⟨value, before, rfl⟩
    · exact g.listed binding before
    · exact listed
  numbered := by
    intro binding mem
    rcases mem_change.mp mem with ⟨before, -⟩ | ⟨value, before, rfl⟩
    · exact g.numbered binding before
    · exact g.numbered (graph, value) before

theorem GraphsListed.create (g : GraphsListed graphs nextGraph) :
    GraphsListed (graphs ++ [(nextGraph, [])]) (nextGraph + 1) where
  distinct := by
    rw [map_append, nodup_append]
    refine ⟨g.distinct, nodup_singleton _, ?_⟩
    rintro _ before _ new rfl
    obtain ⟨binding, mem, same⟩ := mem_map.mp before
    have below := g.numbered binding mem
    simp only [map_cons, map_nil, mem_singleton] at new
    omega
  listed := by
    intro binding mem
    rcases mem_append.mp mem with before | new
    · exact g.listed binding before
    · rw [mem_singleton.mp new]
      exact ⟨nodup_nil, fun _ mem => by cases mem⟩
  numbered := by
    intro binding mem
    rcases mem_append.mp mem with before | new
    · exact Nat.lt_succ_of_lt (g.numbered binding before)
    · rw [mem_singleton.mp new]
      exact Nat.lt_succ_self _

theorem GraphsListed.remove {graph : Nat}
    (g : GraphsListed graphs nextGraph) : GraphsListed (graphs.remove graph) nextGraph where
  distinct := nodup_remove g.distinct
  listed := fun binding mem => g.listed binding (mem_remove.mp mem).1
  numbered := fun binding mem => g.numbered binding (mem_remove.mp mem).1

/-- The invariant of the ledger: the accounts are right, and graphs list what they hold. -/
structure Books (l : Ledger) : Prop where
  balanced : Balanced l.state.objects l.accounts l.state.held
  graphs : GraphsListed l.state.graphs l.state.nextGraph

theorem books_initial : Books initial where
  balanced := {
    settled := fun _ => rfl
    called := fun _ _ known => by simp [initial] at known
    own := fun _ mem => by cases mem
    once := nodup_nil
    fresh := fun _ _ => rfl }
  graphs := ⟨nodup_nil, nofun, fun _ mem => by cases mem⟩

theorem Books.kept {l : Ledger} (books : Books l) : Kept l where
  once := books.balanced.once
  exact := by
    intro handle account known
    rw [books.balanced.called handle account known]
    have settled := books.balanced.settled handle
    rw [known] at settled
    cases live : l.state.objects.live.find? handle with
    | none =>
      rw [live] at settled
      obtain ⟨owned, held⟩ := settled
      simp [owned, held]
    | some object =>
      rw [live] at settled
      obtain ⟨-, -, -, sum, some_⟩ := settled
      rw [sum]
      have : object.refcount.toNat ≠ 0 := fun zero => some_ (eq_of_toNat_eq zero)
      simpa using this
  own := books.balanced.own
  free := by
    intro call mem graph graph_mem
    obtain ⟨account, known, -⟩ := books.balanced.own call mem
    have gone := (books.balanced.called _ _ known).mp ⟨call, mem, rfl⟩
    cases found : graph.2.find? call.object with
    | none => rfl
    | some held =>
      have some_ := (books.graphs.listed graph graph_mem).heldOf_ne_zero found
      have all := heldOf_le_held books.graphs.distinct
        ((find?_eq_some_iff books.graphs.distinct).mpr graph_mem) call.object
      obtain ⟨object, live⟩ := books.balanced.live_of_held
        call.object (by omega)
      rw [live] at gone
      cases gone

/-! ## Calls -/

theorem releaseAll_balanced {objects : Objects} {accounts : AssocMap Nat Account}
    {rest : Nat → Nat} {userObjects : UserReferences} (listed : Listed userObjects)
    (balanced : Balanced objects accounts fun object => userObjects.heldOf object + rest object) :
    ∃ objects', releaseAll objects userObjects = some objects' ∧
      Balanced objects' accounts rest := by
  induction userObjects generalizing objects with
  | nil =>
    refine ⟨objects, rfl, ?_⟩
    simpa [heldOf] using balanced
  | cons entry tail ih =>
    obtain ⟨handle, count⟩ := entry
    obtain ⟨distinct, some_⟩ := listed
    rw [map_cons, nodup_cons] at distinct
    have more : count ≠ 0 := some_ (handle, count) mem_cons_self
    have here : heldOf ((handle, count) :: tail) handle = count.toNat :=
      heldOf_of_find? (by simp [AssocMap.find?])
    have later : heldOf tail handle = 0 := by
      refine heldOf_of_absent (find?_eq_none_iff.mpr fun value mem => distinct.1 ?_)
      exact mem_map.mpr ⟨_, mem, rfl⟩
    have positive : count.toNat ≠ 0 := fun zero => more (eq_of_toNat_eq zero)
    obtain ⟨object, live⟩ := balanced.live_of_held handle (by rw [here]; omega)
    obtain ⟨account, -, -, -, owned, sum, -⟩ := balanced.account live
    rw [here] at sum
    have moves : Moves accounts
        (fun object => heldOf ((handle, count) :: tail) object + rest object)
        accounts (fun object => heldOf tail object + rest object) handle
        (-count.toNat) := by
      refine .graphs (fun k different => ?_) ?_
      · simp [heldOf, AssocMap.find?, Ne.symm different]
      · rw [here, later]
        omega
    obtain ⟨objects', released, after⟩ := balanced.release live more
      (fun less => by have : object.refcount.toNat < count.toNat := less; omega) moves
    obtain ⟨final, done, settled⟩ :=
      ih ⟨distinct.2, fun entry mem => some_ entry (mem_cons_of_mem _ mem)⟩ after
    exact ⟨final, by rw [releaseAll, released]; exact done, settled⟩

/-- A call fails and changes nothing, or succeeds and leaves the books right. -/
def Outcome (l : Ledger) (action : Action) (status : CudaError) (state : State) : Prop :=
  status ≠ .success ∧ state = l.state ∨ status = .success ∧ Books ⟨state, l.settle action⟩

variable {action : Action}

section Calls

variable {l : Ledger} {status : CudaError} {state : State}

section

variable (books : Books l)
include books

theorem userObjectCreate_outcome (objectOut : Bool) (ptr : BitVec 64) (destroy : Option HostFn)
    (initialRefcount flags : BitVec 32)
    (called : l.state.cudaUserObjectCreate objectOut ptr destroy initialRefcount flags = (status,
      state)) :
    Outcome l (.userObjectCreate objectOut ptr destroy initialRefcount flags) status state := by
  unfold cudaUserObjectCreate at called
  cases destroy with
  | none =>
    obtain ⟨rfl, rfl⟩ := mk.inj called
    exact .inl ⟨by decide, rfl⟩
  | some destroy =>
    simp only at called
    split at called
    next =>
      obtain ⟨rfl, rfl⟩ := mk.inj called
      exact .inl ⟨by decide, rfl⟩
    next proper =>
      split at called
      next =>
        obtain ⟨rfl, rfl⟩ := mk.inj called
        exact .inl ⟨by decide, rfl⟩
      next =>
        obtain ⟨rfl, rfl⟩ := mk.inj called
        have some_ : initialRefcount ≠ 0 := by
          intro zero
          simp [zero] at proper
        exact .inr ⟨rfl, books.balanced.create some_, books.graphs⟩

theorem userObjectRetain_outcome (object : Option Nat) (count : BitVec 32)
    (accounted : Accounted l (.userObjectRetain object count))
    (called : l.state.cudaUserObjectRetain object count = some (status, state)) :
    Outcome l (.userObjectRetain object count) status state := by
  unfold cudaUserObjectRetain at called
  cases object with
  | none =>
    cases called
    exact .inl ⟨by decide, rfl⟩
  | some handle =>
    simp only at called
    split at called
    next =>
      cases called
      exact .inl ⟨by decide, rfl⟩
    next some_ =>
      obtain ⟨after, added, pair⟩ := map_eq_some_iff.mp called
      obtain ⟨object, live, rfl⟩ := map_eq_some_iff.mp added
      obtain ⟨rfl, rfl⟩ := mk.inj pair
      obtain ⟨account, known, -, -, owned, -⟩ := books.balanced.account live
      refine .inr ⟨rfl, books.balanced.retain live accounted (.credit ?_), books.graphs⟩
      intro other found
      rw [known] at found
      cases found
      omega

theorem userObjectRelease_outcome (object : Option Nat) (count : BitVec 32)
    (accounted : Accounted l (.userObjectRelease object count))
    (called : l.state.cudaUserObjectRelease object count = some (status, state)) :
    Outcome l (.userObjectRelease object count) status state := by
  obtain ⟨⟨released, objects⟩, answered, pair⟩ := map_eq_some_iff.mp called
  obtain ⟨rfl, rfl⟩ := mk.inj pair
  cases released with
  | false => exact .inl ⟨by simp, by rw [releaseUserObject_false answered]⟩
  | true =>
    obtain ⟨handle, object, rfl, some_, live, enough⟩ := releaseUserObject_true answered
    rcases accounted with ⟨account, known, owns⟩ | short
    · have moves : Moves l.accounts l.state.held (credit l.accounts (some handle) (-count.toNat))
          l.state.held handle (-count.toNat) := by
        refine .credit fun other found => ?_
        rw [known] at found
        cases found
        omega
      obtain ⟨objects', answered', balanced⟩ :=
        books.balanced.release live some_ enough moves
      rw [answered] at answered'
      cases answered'
      exact .inr ⟨rfl, balanced, books.graphs⟩
    · exact absurd (short object live) enough

theorem graphRetainUserObject_outcome (graph object : Option Nat) (count flags : BitVec 32)
    (accounted : Accounted l (.graphRetainUserObject graph object count flags))
    (called : l.state.cudaGraphRetainUserObject graph object count flags = some (status, state)) :
    Outcome l (.graphRetainUserObject graph object count flags) status state := by
  unfold cudaGraphRetainUserObject at called
  split at called
  case h_2 =>
    cases called
    exact .inl ⟨by decide, rfl⟩
  case h_1 graph handle =>
    split at called
    next =>
      cases called
      exact .inl ⟨by decide, rfl⟩
    next some_ =>
      split at called
      next =>
        cases called
        exact .inl ⟨by decide, rfl⟩
      next proper =>
        have small : count.toNat ≠ 0 := fun zero => some_ (eq_of_toNat_eq zero)
        by_cases move : flags = cudaGraphUserObjectMove
        · simp only [move, ne_eq, not_true_eq_false, if_false, bind_some] at called
          obtain ⟨userObjects, known, pair⟩ := map_eq_some_iff.mp called
          obtain ⟨rfl, rfl⟩ := mk.inj pair
          simp only [Accounted, move, if_true] at accounted
          obtain ⟨account, mine, owns⟩ := accounted.resolve_left some_
          have listed : Listed userObjects := books.graphs.listed _ (mem_of_find? known)
          have inside := heldOf_le_held books.graphs.distinct known handle
          obtain ⟨object, live⟩ := books.balanced.live_of_owned mine (by omega)
          obtain ⟨account', known', -, -, owned, sum, some_owned⟩ := books.balanced.account live
          rw [mine] at known'
          cases known'
          have below := object.refcount.isLt
          obtain ⟨after, grown⟩ := listed.retain handle some_ (by omega)
          have moves := held_moves l.accounts books.graphs.distinct known count.toNat
            (fun k different => by rw [grown, if_neg different])
            (by rw [grown, if_pos rfl]; omega)
          obtain ⟨account', known', -, -, -, more⟩ := moves.here account mine owned
          rw [mine] at known'
          cases known'
          refine .inr ⟨rfl, ?_, books.graphs.change after⟩
          simp only [Ledger.settle, move, if_true]
          refine books.balanced.transfer live (.transfer ?_ (fun k different =>
            (moves.others k different).2) (by omega))
          intro other found
          rw [mine] at found
          cases found
          exact owns
        · simp only [move, ne_eq, not_false_eq_true, if_true] at called
          obtain ⟨s', added, called⟩ := bind_eq_some_iff.mp called
          obtain ⟨object, live, rfl⟩ := map_eq_some_iff.mp added
          obtain ⟨userObjects, known, pair⟩ := map_eq_some_iff.mp called
          obtain ⟨rfl, rfl⟩ := mk.inj pair
          simp only [Accounted, move, if_false] at accounted
          have zero : flags = 0 := by simpa [move] using proper
          have fits := accounted.resolve_left (fun other => other zero)
          have room := fits object live
          have known : l.state.graphs.find? graph = some userObjects := known
          have listed : Listed userObjects := books.graphs.listed _ (mem_of_find? known)
          have inside := heldOf_le_held books.graphs.distinct known handle
          obtain ⟨account, mine, -, -, owned, sum, -⟩ := books.balanced.account live
          obtain ⟨after, grown⟩ := listed.retain handle some_ (by omega)
          have moves := held_moves l.accounts books.graphs.distinct known count.toNat
            (fun k different => by rw [grown, if_neg different])
            (by rw [grown, if_pos rfl]; omega)
          refine .inr ⟨rfl, ?_, books.graphs.change after⟩
          simp only [Ledger.settle, move, if_false]
          exact books.balanced.retain live fits moves

theorem graphReleaseUserObject_outcome (graph object : Option Nat) (count : BitVec 32)
    (called : l.state.cudaGraphReleaseUserObject graph object count = some (status, state)) :
    Outcome l (.graphReleaseUserObject graph object count) status state := by
  unfold cudaGraphReleaseUserObject at called
  split at called
  case h_2 =>
    cases called
    exact .inl ⟨by decide, rfl⟩
  case h_1 graph handle =>
    split at called
    next =>
      cases called
      exact .inl ⟨by decide, rfl⟩
    next some_ =>
      obtain ⟨userObjects, known, called⟩ := bind_eq_some_iff.mp called
      have listed : Listed userObjects := books.graphs.listed _ (mem_of_find? known)
      split at called
      next =>
        cases called
        exact .inl ⟨by decide, rfl⟩
      next held found =>
        split at called
        next =>
          cases called
          exact .inl ⟨by decide, rfl⟩
        next enough =>
          obtain ⟨⟨released, objects⟩, answered, pair⟩ := map_eq_some_iff.mp called
          obtain ⟨after, shrunk⟩ := listed.release found enough
          have inside := heldOf_le_held books.graphs.distinct known handle
          have some_held := listed.heldOf_ne_zero found
          have le : count.toNat ≤ held.toNat := not_lt.mp enough
          have counts := heldOf_of_find? found
          obtain ⟨object, live⟩ := books.balanced.live_of_held handle (by omega)
          obtain ⟨account, -, -, -, owned, sum, -⟩ := books.balanced.account live
          have moves := held_moves l.accounts books.graphs.distinct known
            (-count.toNat) (fun k different => by rw [shrunk, if_neg different])
            (by rw [shrunk, if_pos rfl]; omega)
          obtain ⟨objects', answered', balanced⟩ := books.balanced.release live some_
            (fun less => by have : object.refcount.toNat < count.toNat := less; omega) moves
          rw [answered] at answered'
          cases answered'
          obtain ⟨rfl, rfl⟩ := mk.inj pair
          exact .inr ⟨rfl, balanced, books.graphs.change after⟩

theorem newGraph_books : Books ⟨l.state.newGraph, l.accounts⟩ := by
  have held : l.state.newGraph.held = l.state.held := by
    funext object
    simp [held, newGraph, heldOf]
  refine ⟨?_, books.graphs.create⟩
  dsimp only
  rw [held]
  exact books.balanced

theorem graphCreate_outcome (pGraph : Bool) (flags : BitVec 32)
    (called : l.state.cudaGraphCreate pGraph flags = (status, state)) :
    Outcome l (.graphCreate pGraph flags) status state := by
  unfold cudaGraphCreate at called
  split at called
  next =>
    obtain ⟨rfl, rfl⟩ := mk.inj called
    exact .inl ⟨by decide, rfl⟩
  next =>
    obtain ⟨rfl, rfl⟩ := mk.inj called
    exact .inr ⟨rfl, newGraph_books books⟩

theorem graphClone_outcome (pGraphClone : Bool) (originalGraph : Option Nat) (copied : CudaError)
    (called : l.state.cudaGraphClone pGraphClone originalGraph copied = some (status, state)) :
    Outcome l (.graphClone pGraphClone originalGraph copied) status state := by
  unfold cudaGraphClone at called
  cases originalGraph with
  | none =>
    cases called
    exact .inl ⟨by decide, rfl⟩
  | some original =>
    simp only at called
    split at called
    next =>
      cases called
      exact .inl ⟨by decide, rfl⟩
    next =>
      obtain ⟨userObjects, known, pair⟩ := map_eq_some_iff.mp called
      split at pair
      next failed =>
        obtain ⟨rfl, rfl⟩ := mk.inj pair
        exact .inl ⟨failed, rfl⟩
      next =>
        obtain ⟨rfl, rfl⟩ := mk.inj pair
        exact .inr ⟨rfl, newGraph_books books⟩

theorem graphDestroy_outcome (graph : Option Nat)
    (called : l.state.cudaGraphDestroy graph = some (status, state)) :
    Outcome l (.graphDestroy graph) status state := by
  unfold cudaGraphDestroy at called
  cases graph with
  | none =>
    cases called
    exact .inl ⟨by decide, rfl⟩
  | some graph =>
    obtain ⟨userObjects, known, called⟩ := bind_eq_some_iff.mp called
    obtain ⟨objects, released, pair⟩ := map_eq_some_iff.mp called
    obtain ⟨rfl, rfl⟩ := mk.inj pair
    have mem := mem_of_find? known
    have held : l.state.held = fun object => userObjects.heldOf object +
        (l.state.graphs.remove graph).total fun graph => graph.heldOf object := by
      funext object
      have without := total_remove (fun graph => graph.heldOf object)
        books.graphs.distinct mem
      unfold held
      omega
    obtain ⟨objects', released', balanced⟩ :=
      releaseAll_balanced (books.graphs.listed _ mem) (held ▸ books.balanced)
    rw [released] at released'
    cases released'
    exact .inr ⟨rfl, balanced, books.graphs.remove⟩

theorem call_outcome (accounted : Accounted l action)
    (called : l.state.call action = some (status, state)) : Outcome l action status state := by
  cases action with
  | userObjectCreate objectOut ptr destroy initialRefcount flags =>
    exact userObjectCreate_outcome books _ _ _ _ _ (some.inj called)
  | userObjectRetain object count => exact userObjectRetain_outcome books _ _ accounted called
  | userObjectRelease object count => exact userObjectRelease_outcome books _ _ accounted called
  | graphRetainUserObject graph object count flags =>
    exact graphRetainUserObject_outcome books _ _ _ _ accounted called
  | graphReleaseUserObject graph object count =>
    exact graphReleaseUserObject_outcome books _ _ _ called
  | graphCreate pGraph flags => exact graphCreate_outcome books _ _ (some.inj called)
  | graphClone pGraphClone originalGraph copied => exact graphClone_outcome books _ _ _ called
  | graphDestroy graph => exact graphDestroy_outcome books _ called

end

end Calls

theorem step_books {l l' : Ledger} (books : Books l) (accounted : Accounted l action)
    (stepped : step l action = some l') : Books l' := by
  obtain ⟨⟨status, state⟩, called, rfl⟩ := map_eq_some_iff.mp stepped
  rcases call_outcome books accounted called with ⟨failed, rfl⟩ | ⟨rfl, after⟩
  · dsimp only
    rw [if_neg failed]
    exact books
  · dsimp only
    rw [if_pos rfl]
    exact after

/-- In a run in which no counter wraps around and the caller gives only what it owns, destructors
run when they have to, and a call that returns an error changes nothing. -/
theorem userObjects_kept {trail : List (Ledger × Action)} {u : Ledger}
    (run : Run (Steps step) initial trail u)
    (accounted : ∀ visited ∈ trail, Accounted visited.1 visited.2) :
    Always Kept trail u ∧ ∀ visited ∈ trail, ∀ status state,
      visited.1.state.call visited.2 = some (status, state) → status ≠ .success →
        state = visited.1.state := by
  have always := run.invariant
    (fun l action l' (books : Books l) good (stepped : step l action = some l') =>
      step_books books good stepped) books_initial accounted
  refine ⟨⟨fun visited mem => (always.1 visited mem).kept, always.2.kept⟩, ?_⟩
  intro visited mem status state called failed
  rcases call_outcome (always.1 visited mem) (accounted visited mem) called with
    ⟨-, same⟩ | ⟨done, -⟩
  · exact same
  · exact absurd done failed

/-- A graph takes a reference of its own, and later the caller's; then both graphs are destroyed. -/
def shared : List Action :=
  [.userObjectCreate true 0x1000 (some ⟨1⟩) 1 0, .graphCreate true 0,
    .graphRetainUserObject (some 0) (some 0) 1 0, .graphClone true (some 0) .success,
    .graphRetainUserObject (some 1) (some 0) 1 cudaGraphUserObjectMove,
    .userObjectRelease (some 0) 3, .graphDestroy (some 0), .graphDestroy (some 1)]

theorem userObjects_kept_shared : ∃ (trail : List (Ledger × Action)) (u : Ledger),
    trail.map Prod.snd = shared ∧ u.state.objects.calls = [⟨0, ⟨1⟩, 0x1000⟩] ∧
      Always Kept trail u := by
  obtain ⟨trail, same, run, accounted⟩ := @run_of_guarded _ _ step Accounted _ initial _ shared rfl
  exact ⟨trail, _, same, rfl, (userObjects_kept run accounted).1⟩

/-- Enough references to wrap the counter around, and one more, of which one is released. -/
def wrapAround : List Action :=
  [.userObjectCreate true 0x1000 (some ⟨1⟩) 1 0, .userObjectRetain (some 0) 0xFFFFFFFF,
    .userObjectRetain (some 0) 1, .userObjectRelease (some 0) 1]

/-- The caller releases the reference of a graph with its own. -/
def released : List Action :=
  [.userObjectCreate true 0x1000 (some ⟨1⟩) 1 0, .graphCreate true 0,
    .graphRetainUserObject (some 0) (some 0) 1 0, .userObjectRelease (some 0) 2]

/-- The destructor runs while the caller owns more than four thousand million references, and while
a graph holds one. -/
theorem userObjects_not_kept :
    (∃ (trail : List (Ledger × Action)) (u : Ledger), trail.map Prod.snd = wrapAround ∧
      Run (Steps step) initial trail u ∧ ¬ Kept u) ∧
    ∃ (trail : List (Ledger × Action)) (u : Ledger), trail.map Prod.snd = released ∧
      Run (Steps step) initial trail u ∧ ¬ Kept u := by
  constructor
  · obtain ⟨trail, same, run⟩ := @run_of_execute _ _ step initial _ wrapAround rfl
    refine ⟨trail, _, same, run, fun kept => ?_⟩
    have sum := (kept.exact 0 ⟨0x1000, ⟨1⟩, 4294967296⟩ rfl).mp ⟨_, mem_cons_self, rfl⟩
    cases sum
  · obtain ⟨trail, same, run⟩ := @run_of_execute _ _ step initial _ released rfl
    refine ⟨trail, _, same, run, fun kept => ?_⟩
    have free := kept.free _ mem_cons_self _ mem_cons_self
    cases free

end CuMetal.UserObjects
