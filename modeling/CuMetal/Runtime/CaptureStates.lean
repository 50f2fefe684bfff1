import CuMetal.Lib.AssocMap
import CuMetal.Lib.GuardedRun
import CuMetal.Runtime.Buffers

/-!
# Which streams capture

The map `g_captures` and the graphs that events carry (`runtime/rt/cuda_runtime.cpp`), beside the
history of the calls: which capture a stream began or joined, in which capture an event was last
recorded, and which captures have ended. An operation is a call that asks `get_capture_graph`; what
it records is not looked at.
-/

namespace CuMetal.Runtime.CaptureStates

open List AssocMap Function

/-- `cudaStream_t`: the address of a stream, or one of the values that name default streams. -/
abbrev StreamHandle := Nat

/-- `cudaGraph_t`: the address of a graph; 0 is the null pointer. -/
abbrev GraphHandle := Nat

/-- `cudaEvent_t`. -/
abbrev EventHandle := Nat

/-- `is_legacy_stream_handle` (`994-996`): the null pointer and `cudaStreamLegacy`. -/
def isLegacyStreamHandle (stream : StreamHandle) : Bool := stream = 0 ∨ stream = 1

/-- `is_per_thread_stream_handle` (`998-1000`): `cudaStreamPerThread`. -/
def isPerThreadStreamHandle (stream : StreamHandle) : Bool := stream = 2

/-- The handle is not that of a created stream. -/
def isDefaultHandle (stream : StreamHandle) : Bool :=
  isLegacyStreamHandle stream || isPerThreadStreamHandle stream

/-- `CaptureState` (`433-436`). -/
structure CaptureState where
  capturing : Bool
  graph : GraphHandle

/-- The type of `g_captures` (`438`). -/
abbrev Captures := AssocMap StreamHandle CaptureState

/-- `get_capture_graph` (`442-449`). -/
def getCaptureGraph (captures : Captures) (stream : StreamHandle) : Option GraphHandle :=
  match captures.find? stream with
  | some state => if state.capturing then some state.graph else none
  | none => none

/-- `cudaStreamBeginCapture` (`4431-4454`) in a mode that exists, with the address of a new
graph. -/
def cudaStreamBeginCapture (captures : Captures) (stream : StreamHandle) (new : GraphHandle) :
    CudaError × Captures :=
  if ((captures.find? stream).getD ⟨false, 0⟩).capturing then (.invalidValue, captures)
  else (.success, captures.assign stream ⟨true, new⟩)

/-- `cudaStreamEndCapture` (`4456-4477`) with a place for the graph. -/
def cudaStreamEndCapture (captures : Captures) (stream : StreamHandle) :
    CudaError × Option GraphHandle × Captures :=
  match getCaptureGraph captures stream with
  | none => (.invalidValue, none, captures)
  | some graph =>
    (.success, some graph,
      captures.filter fun capture => !(capture.2.capturing && capture.2.graph == graph))

/-- The test `capture_still_active` (`5600-5606`). -/
def captureStillActive (captures : Captures) (graph : GraphHandle) : Bool :=
  captures.any fun entry => entry.2.capturing && entry.2.graph == graph

/-- `cudaStreamWaitEvent` (`5587-5634`) with flags that exist, for the `capture_graph` of the event.
`waited` is the status of the wait that is not captured. -/
def cudaStreamWaitEvent (captures : Captures) (stream : StreamHandle) (captureGraph : GraphHandle)
    (waited : CudaError) : CudaError × Captures :=
  if captureGraph ≠ 0 ∧ captureStillActive captures captureGraph then
    let capture := (captures.find? stream).getD ⟨false, 0⟩
    if capture.capturing ∧ capture.graph ≠ captureGraph then (.invalidValue, captures)
    else (.success, captures.assign stream ⟨true, captureGraph⟩)
  else (waited, captures)

/-- `cudaEventRecord` (`5675-5724`): the status, and the `capture_graph` that the event has then.
`marked` is the status of the marker that a stream outside captures gets. -/
def cudaEventRecord (captures : Captures) (stream : StreamHandle) (captureGraph : GraphHandle)
    (marked : CudaError) : CudaError × GraphHandle :=
  match getCaptureGraph captures stream with
  | some graph => (.success, graph)
  | none => if marked = .success then (.success, 0) else (marked, captureGraph)

/-! ## Runs -/

/-- A capture that has begun, and whether it has ended. -/
structure Capture where
  graph : GraphHandle
  ended : Bool

/-- The streams that the threads of a program name by handles. -/
inductive Stream
  | created (handle : StreamHandle)
  | legacy
  | perThread (thread : Nat)
  deriving DecidableEq

def streamOf (thread : Nat) (handle : StreamHandle) : Stream :=
  if isLegacyStreamHandle handle then .legacy
  else if isPerThreadStreamHandle handle then .perThread thread
  else .created handle

/-- `CUevent_st` (`345-362`) as far as captures are concerned, and the capture in which it was last
recorded. -/
structure Event where
  captureGraph : GraphHandle
  recordedIn : Option Nat

/-- What the runtime knows, and the history: the captures in the order in which they began, the last
capture that each stream began or joined, and for each graph the capture that made it, if one
did. -/
structure State where
  captures : Captures
  streams : List StreamHandle
  events : AssocMap EventHandle Event
  graphs : AssocMap GraphHandle (Option Nat)
  begun : List Capture
  member : Stream → Option Nat

inductive Action
  | createStream (stream : StreamHandle)
  | destroyStream (stream : StreamHandle)
  | deviceReset (thread : Nat)
  | createEvent (event : EventHandle)
  | destroyEvent (event : EventHandle)
  | createGraph (graph : GraphHandle)
  | destroyGraph (graph : GraphHandle)
  | beginCapture (thread : Nat) (stream : StreamHandle) (new : GraphHandle)
  | endCapture (stream : StreamHandle)
  | recordEvent (thread : Nat) (event : EventHandle) (stream : StreamHandle) (marked : CudaError)
  | waitEvent (thread : Nat) (stream : StreamHandle) (event : EventHandle) (waited : CudaError)

def activeGraph (begun : List Capture) (capture : Nat) : Option GraphHandle :=
  match begun[capture]? with
  | some found => if found.ended then none else some found.graph
  | none => none

namespace State

def initial : State := ⟨[], [], [], [], [], fun _ => none⟩

variable (s : State)

def Usable (stream : StreamHandle) : Prop := isDefaultHandle stream ∨ stream ∈ s.streams

instance (stream : StreamHandle) : Decidable (s.Usable stream) :=
  inferInstanceAs (Decidable (_ ∨ _))

/-- The capture that the stream is in, by the history. -/
def current (stream : Stream) : Option Nat :=
  (s.member stream).filter fun capture => (activeGraph s.begun capture).isSome

/-- The graph of the capture that the stream is in, by the history. -/
def recording (stream : Stream) : Option GraphHandle :=
  (s.member stream).bind (activeGraph s.begun)

/-- The calls that a program may make. New streams, events and graphs get any addresses that are not
in use; a graph is destroyed only after its capture has ended. -/
def next : Action → Option State
  | .createStream stream =>
    if isDefaultHandle stream ∨ stream ∈ s.streams then none
    else some { s with
      streams := stream :: s.streams
      member := Function.update s.member (.created stream) none }
  | .destroyStream stream =>
    if stream ∈ s.streams then some { s with streams := s.streams.filter (· ≠ stream) } else none
  | .deviceReset thread => some { s with
      streams := []
      member := Function.update s.member (.perThread thread) none }
  | .createEvent event =>
    if s.events.contains event then none
    else some { s with events := s.events ++ [(event, ⟨0, none⟩)] }
  | .destroyEvent event => some { s with events := s.events.filter (·.1 ≠ event) }
  | .createGraph graph =>
    if graph = 0 ∨ s.graphs.contains graph then none
    else some { s with graphs := s.graphs ++ [(graph, none)] }
  | .destroyGraph graph =>
    if ∃ capture ∈ (s.graphs.find? graph).join, activeGraph s.begun capture ≠ none then none
    else some { s with graphs := s.graphs.filter (·.1 ≠ graph) }
  | .beginCapture thread stream new =>
    if ¬ s.Usable stream ∨ new = 0 ∨ s.graphs.contains new then none
    else
      let result := cudaStreamBeginCapture s.captures stream new
      if result.1 = .success then some { s with
        captures := result.2
        graphs := s.graphs ++ [(new, some s.begun.length)]
        begun := s.begun ++ [⟨new, false⟩]
        member := Function.update s.member (streamOf thread stream) (some s.begun.length) }
      else some { s with captures := result.2 }
  | .endCapture stream =>
    if ¬ s.Usable stream then none
    else
      match cudaStreamEndCapture s.captures stream with
      | (_, some graph, captures) => some { s with
          captures := captures
          begun := s.begun.map fun capture =>
            if capture.graph = graph then { capture with ended := true } else capture }
      | (_, none, captures) => some { s with captures := captures }
  | .recordEvent thread event stream marked =>
    match s.events.find? event with
    | none => none
    | some found =>
      if ¬ s.Usable stream then none
      else
        let result := cudaEventRecord s.captures stream found.captureGraph marked
        some { s with
          events := s.events.assign event
            ⟨result.2, if result.1 = .success then s.current (streamOf thread stream)
              else found.recordedIn⟩ }
  | .waitEvent thread stream event waited =>
    match s.events.find? event with
    | none => none
    | some found =>
      if ¬ s.Usable stream then none
      else
        let result := cudaStreamWaitEvent s.captures stream found.captureGraph waited
        some { s with
          captures := result.2
          member :=
            if result.1 = .success ∧
                ∃ capture ∈ found.recordedIn, activeGraph s.begun capture ≠ none then
              Function.update s.member (streamOf thread stream) found.recordedIn
            else s.member }

end State

/-- Operations are recorded exactly on the streams that are in a capture by the history, and into
its graph. -/
def FollowsStreams (s : State) : Prop :=
  ∀ thread stream, s.Usable stream →
    getCaptureGraph s.captures stream = s.recording (streamOf thread stream)

/-- No operation appends to the graph of a capture that has ended. -/
def LeavesEnded (s : State) : Prop :=
  ∀ stream graph capture, s.Usable stream → getCaptureGraph s.captures stream = some graph →
    s.graphs.find? graph = some (some capture) → activeGraph s.begun capture ≠ none

/-- A new stream does not get an address that still captures, no capture is begun on a default
stream, and a stream that joins a capture is a created one and joins the capture in which the event
was recorded. -/
def Clean (s : State) : Action → Prop
  | .createStream stream => getCaptureGraph s.captures stream = none
  | .beginCapture _ stream _ => isDefaultHandle stream = false
  | .waitEvent _ stream event _ => ∀ found, s.events.find? event = some found →
      getCaptureGraph s.captures stream = none → found.captureGraph ≠ 0 →
      captureStillActive s.captures found.captureGraph = true →
      isDefaultHandle stream = false ∧
        ∃ capture ∈ found.recordedIn, activeGraph s.begun capture ≠ none
  | _ => True

variable {captures : Captures} {graph : GraphHandle} {capture : Nat}

theorem getCaptureGraph_eq_some {stream : StreamHandle} :
    getCaptureGraph captures stream = some graph ↔
      captures.find? stream = some ⟨true, graph⟩ := by
  unfold getCaptureGraph
  cases found : captures.find? stream with
  | none => simp
  | some state =>
    obtain ⟨capturing, held⟩ := state
    cases capturing <;> simp

theorem capturing_getD (captures : Captures) (stream : StreamHandle) :
    ((captures.find? stream).getD ⟨false, 0⟩).capturing =
      (getCaptureGraph captures stream).isSome := by
  unfold getCaptureGraph
  cases found : captures.find? stream with
  | none => rfl
  | some state =>
    obtain ⟨capturing, held⟩ := state
    cases capturing <;> rfl

theorem getCaptureGraph_assign (captures : Captures) (stream other : StreamHandle)
    (graph : GraphHandle) :
    getCaptureGraph (captures.assign stream ⟨true, graph⟩) other =
      if stream = other then some graph else getCaptureGraph captures other := by
  rw [getCaptureGraph, find?_assign]
  by_cases same : stream = other
  · rw [if_pos same, if_pos same]
    rfl
  · rw [if_neg same, if_neg same]
    rfl

theorem getCaptureGraph_filter (distinct : (captures.map Prod.fst).Nodup)
    (graph : GraphHandle) (stream : StreamHandle) :
    getCaptureGraph (captures.filter fun capture =>
        !(capture.2.capturing && capture.2.graph == graph)) stream =
      (getCaptureGraph captures stream).filter (· ≠ graph) := by
  rw [getCaptureGraph, find?_filter_value distinct
    (fun state => !(state.capturing && state.graph == graph)), getCaptureGraph]
  cases captures.find? stream with
  | none => rfl
  | some state =>
    obtain ⟨capturing, held⟩ := state
    cases capturing <;> by_cases same : held = graph <;> simp [Option.filter, same]

theorem captureStillActive_iff (distinct : (captures.map Prod.fst).Nodup) (graph : GraphHandle) :
    captureStillActive captures graph = true ↔
      ∃ stream, getCaptureGraph captures stream = some graph := by
  rw [captureStillActive, any_eq_true]
  constructor
  · rintro ⟨⟨stream, capturing, held⟩, member, active⟩
    simp only [Bool.and_eq_true, beq_iff_eq] at active
    obtain ⟨rfl, rfl⟩ := active
    exact ⟨stream, getCaptureGraph_eq_some.mpr ((find?_eq_some_iff distinct).mpr member)⟩
  · rintro ⟨stream, captured⟩
    have member := mem_of_find? (getCaptureGraph_eq_some.mp captured)
    exact ⟨_, member, by simp⟩

theorem activeGraph_snoc (begun : List Capture) (new : GraphHandle) (capture : Nat) :
    activeGraph (begun ++ [⟨new, false⟩]) capture =
      if capture = begun.length then some new else activeGraph begun capture := by
  unfold activeGraph
  rcases lt_trichotomy capture begun.length with below | rfl | above
  · rw [getElem?_append_left below, if_neg below.ne]
  · simp
  · have outside : (begun ++ [(⟨new, false⟩ : Capture)]).length ≤ capture := by
      rw [length_append, length_singleton]
      omega
    rw [getElem?_eq_none outside, if_neg above.ne', getElem?_eq_none above.le]

theorem activeGraph_map (begun : List Capture) (graph : GraphHandle) (capture : Nat) :
    activeGraph (begun.map fun capture =>
        if capture.graph = graph then { capture with ended := true } else capture) capture =
      (activeGraph begun capture).filter (· ≠ graph) := by
  unfold activeGraph
  rw [getElem?_map]
  cases begun[capture]? with
  | none => rfl
  | some found =>
    obtain ⟨held, ended⟩ := found
    cases ended <;> by_cases same : held = graph <;> simp [Option.filter, same]

theorem activeGraph_lt {begun : List Capture} (active : activeGraph begun capture = some graph) :
    capture < begun.length := by
  by_contra outside
  rw [activeGraph, getElem?_eq_none (Nat.le_of_not_lt outside)] at active
  cases active

/-- What clean steps keep. Handles of destroyed streams may capture still: every entry is of a
capture that has not ended, and every such capture has an entry. -/
structure Sound (s : State) : Prop where
  handles : (s.captures.map Prod.fst).Nodup
  follows : FollowsStreams s
  defaults : ∀ stream, isDefaultHandle stream = true → getCaptureGraph s.captures stream = none
  entries : ∀ stream graph, getCaptureGraph s.captures stream = some graph →
    ∃ capture, activeGraph s.begun capture = some graph
  carried : ∀ capture graph, activeGraph s.begun capture = some graph →
    ∃ stream, getCaptureGraph s.captures stream = some graph
  owned : ∀ capture graph, activeGraph s.begun capture = some graph →
    s.graphs.find? graph = some (some capture)
  present : ∀ capture graph, activeGraph s.begun capture = some graph → graph ≠ 0
  eventHandles : (s.events.map Prod.fst).Nodup
  events : ∀ event ∈ s.events, ∀ capture graph, event.2.recordedIn = some capture →
    activeGraph s.begun capture = some graph → event.2.captureGraph = graph
  plainEvents : ∀ event ∈ s.events, event.2.recordedIn = none → event.2.captureGraph = 0
  members : ∀ stream capture, s.member stream = some capture → capture < s.begun.length
  eventMembers : ∀ event ∈ s.events, ∀ capture, event.2.recordedIn = some capture →
    capture < s.begun.length

namespace Sound

variable {s : State}

theorem initial : Sound .initial where
  handles := nodup_nil
  follows := fun _ _ _ => rfl
  defaults := fun _ _ => rfl
  entries := fun _ _ captured => by cases captured
  carried := fun _ _ active => by cases active
  owned := fun _ _ active => by cases active
  present := fun _ _ active => by cases active
  eventHandles := nodup_nil
  events := nofun
  plainEvents := nofun
  members := fun _ _ joined => by cases joined
  eventMembers := nofun

theorem leavesEnded (sound : Sound s) : LeavesEnded s := by
  intro stream graph capture _ captured made
  obtain ⟨active, isActive⟩ := sound.entries stream graph captured
  have owner := sound.owned active graph isActive
  rw [made] at owner
  cases owner
  rw [isActive]
  exact Option.some_ne_none _

variable {stream : StreamHandle} {thread : Nat} {event : EventHandle} {found : Event}
  {after : State}

theorem recording_default (sound : Sound s) (thread : Nat)
    (isDefault : isDefaultHandle stream = true) : s.recording (streamOf thread stream) = none :=
  (sound.follows thread stream (.inl isDefault)).symm.trans (sound.defaults stream isDefault)

theorem streamOf_created (thread : Nat)
    (created : isDefaultHandle stream = false) : streamOf thread stream = .created stream := by
  rw [isDefaultHandle, Bool.or_eq_false_iff] at created
  rw [streamOf, created.1, created.2]
  rfl

theorem streamOf_default_ne {other : StreamHandle}
    (isDefault : isDefaultHandle stream = true) : streamOf thread stream ≠ .created other := by
  unfold streamOf
  split
  · exact fun same => by cases same
  · split
    · exact fun same => by cases same
    · next legacy perThread =>
        rw [isDefaultHandle, Bool.or_eq_true_iff] at isDefault
        rcases isDefault with isLegacy | isPerThread
        · exact absurd isLegacy legacy
        · exact absurd isPerThread perThread

theorem eq_of_streamOf {other : StreamHandle}
    (same : streamOf thread other = .created stream) : stream = other := by
  have notDefault : isDefaultHandle other = false := by
    by_contra isDefault
    exact streamOf_default_ne (Bool.eq_true_of_not_eq_false isDefault) same
  rw [streamOf_created _ notDefault] at same
  exact (Stream.created.inj same).symm

/-! ## The steps keep the invariant -/

theorem members_update {member : Stream → Option Nat} {bound : Nat}
    (old : ∀ stream capture, member stream = some capture → capture < bound) (stream : Stream)
    {joined : Option Nat} (new : ∀ capture, joined = some capture → capture < bound) :
    ∀ other capture, Function.update member stream joined other = some capture →
      capture < bound := by
  intro other capture isIn
  by_cases same : other = stream
  · subst same
    rw [update_self] at isIn
    exact new capture isIn
  · rw [update_of_ne same] at isIn
    exact old other capture isIn

section

variable (sound : Sound s)
include sound

theorem defaults_assign (created : isDefaultHandle stream = false) (graph : GraphHandle)
    (other : StreamHandle) (isDefault : isDefaultHandle other = true) :
    getCaptureGraph (s.captures.assign stream ⟨true, graph⟩) other = none := by
  rw [getCaptureGraph_assign, if_neg]
  · exact sound.defaults other isDefault
  · rintro rfl
    rw [created] at isDefault
    cases isDefault

theorem createStream (created : isDefaultHandle stream = false)
    (clean : getCaptureGraph s.captures stream = none) :
    Sound { s with
      streams := stream :: s.streams
      member := Function.update s.member (.created stream) none } :=
  { sound with
    follows := by
      intro thread other usable
      have old := sound.follows thread other
      simp only [State.recording]
      by_cases same : streamOf thread other = .created stream
      · rw [same, update_self]
        obtain rfl := eq_of_streamOf same
        exact clean
      · rw [update_of_ne same]
        refine old (usable.imp id fun member => ?_)
        rcases mem_cons.mp member with rfl | before
        · exact absurd (streamOf_created _ created) same
        · exact before
    members := members_update sound.members _ fun _ joined => by cases joined }

theorem destroyStreams {streams : List StreamHandle} (fewer : streams ⊆ s.streams) :
    Sound { s with streams := streams } :=
  { sound with
    follows := fun thread stream usable =>
      sound.follows thread stream (usable.imp id fun member => fewer member) }

theorem forgetThread (thread : Nat) :
    Sound { s with member := Function.update s.member (.perThread thread) none } :=
  { sound with
    follows := by
      intro other stream usable
      simp only [State.recording]
      by_cases same : streamOf other stream = .perThread thread
      · have isDefault : isDefaultHandle stream = true := by
          by_contra created
          rw [streamOf_created _ (Bool.eq_false_of_not_eq_true created)] at same
          cases same
        rw [same, update_self]
        exact sound.defaults stream isDefault
      · rw [update_of_ne same]
        exact sound.follows other stream usable
    members := members_update sound.members _ fun _ joined => by cases joined }

theorem changeEvents {events : AssocMap EventHandle Event} (handles : (events.map Prod.fst).Nodup)
    (proper : ∀ event ∈ events, event ∈ s.events ∨ (event.2.recordedIn = none ∧
      event.2.captureGraph = 0) ∨ ∃ capture, event.2.recordedIn = some capture ∧ activeGraph
      s.begun capture = some event.2.captureGraph) : Sound { s with events := events } :=
  { sound with
    eventHandles := handles
    events := by
      intro event member capture graph recorded active
      rcases proper event member with before | ⟨plain, _⟩ | ⟨other, recordedOther, isActive⟩
      · exact sound.events event before capture graph recorded active
      · rw [plain] at recorded
        cases recorded
      · rw [recordedOther] at recorded
        cases recorded
        exact Option.some.inj (isActive.symm.trans active)
    plainEvents := by
      intro event member plain
      rcases proper event member with before | ⟨_, none⟩ | ⟨other, recordedOther, _⟩
      · exact sound.plainEvents event before plain
      · exact none
      · rw [recordedOther] at plain
        cases plain
    eventMembers := by
      intro event member capture recorded
      rcases proper event member with before | ⟨plain, _⟩ | ⟨other, recordedOther, isActive⟩
      · exact sound.eventMembers event before capture recorded
      · rw [plain] at recorded
        cases recorded
      · rw [recordedOther] at recorded
        cases recorded
        exact activeGraph_lt isActive }

theorem changeGraphs {graphs : AssocMap GraphHandle (Option Nat)}
    (keeps : ∀ graph capture, activeGraph s.begun capture = some graph → s.graphs.find? graph =
      some (some capture) → graphs.find? graph = some (some capture)) :
    Sound { s with graphs := graphs } :=
  { sound with
    owned := fun capture graph active =>
      keeps graph capture active (sound.owned capture graph active) }

theorem beginCapture {new : GraphHandle} (created : isDefaultHandle stream = false)
    (present : new ≠ 0) (fresh : s.graphs.contains new = false)
    (idle : getCaptureGraph s.captures stream = none) :
    Sound { s with
      captures := s.captures.assign stream ⟨true, new⟩
      graphs := s.graphs ++ [(new, some s.begun.length)]
      begun := s.begun ++ [⟨new, false⟩]
      member := Function.update s.member (streamOf thread stream) (some s.begun.length) } := by
  have old : ∀ {capture}, capture < s.begun.length →
      activeGraph (s.begun ++ [⟨new, false⟩]) capture = activeGraph s.begun capture := by
    intro capture below
    rw [activeGraph_snoc, if_neg below.ne]
  have last : activeGraph (s.begun ++ [⟨new, false⟩]) s.begun.length = some new := by
    rw [activeGraph_snoc, if_pos rfl]
  have named := streamOf_created thread created
  exact {
    handles := nodup_assign sound.handles _ _
    follows := by
      intro other handle usable
      have before := sound.follows other handle usable
      simp only [State.recording, getCaptureGraph_assign, named]
      by_cases same : streamOf other handle = .created stream
      · rw [same, update_self, Option.bind_some, last]
        obtain rfl := eq_of_streamOf same
        exact if_pos rfl
      · have different : stream ≠ handle := by
          rintro rfl
          exact same (streamOf_created _ created)
        rw [if_neg different, update_of_ne same, before, State.recording]
        cases joined : s.member (streamOf other handle) with
        | none => rfl
        | some capture => exact (old (sound.members _ _ joined)).symm
    defaults := sound.defaults_assign created _
    entries := by
      intro other graph captured
      rw [getCaptureGraph_assign] at captured
      split at captured
      · cases captured
        exact ⟨_, last⟩
      · obtain ⟨capture, active⟩ := sound.entries other graph captured
        exact ⟨capture, (old (activeGraph_lt active)).trans active⟩
    carried := by
      intro capture graph active
      rw [activeGraph_snoc] at active
      split at active
      · cases active
        exact ⟨stream, by rw [getCaptureGraph_assign, if_pos rfl]⟩
      · obtain ⟨other, captured⟩ := sound.carried capture graph active
        refine ⟨other, ?_⟩
        rw [getCaptureGraph_assign, if_neg]
        · exact captured
        · rintro rfl
          rw [idle] at captured
          cases captured
    owned := by
      intro capture graph active
      rw [activeGraph_snoc] at active
      have unknown : s.graphs.find? new = none := by
        rw [AssocMap.contains, Option.isSome_eq_false_iff, Option.isNone_iff_eq_none] at fresh
        exact fresh
      rw [AssocMap.find?_append]
      split at active
      · next same =>
          cases active
          rw [unknown, Option.none_or, AssocMap.find?, if_pos rfl, same]
      · rw [sound.owned capture graph active]
        rfl
    present := by
      intro capture graph active
      rw [activeGraph_snoc] at active
      split at active
      · cases active
        exact present
      · exact sound.present capture graph active
    eventHandles := sound.eventHandles
    events := by
      intro event member capture graph recorded active
      rw [old (sound.eventMembers event member capture recorded)] at active
      exact sound.events event member capture graph recorded active
    plainEvents := sound.plainEvents
    members := by
      rw [length_append, length_singleton]
      refine members_update (fun other capture joined => ?_) _ fun capture joined => ?_
      · exact Nat.lt_succ_of_lt (sound.members other capture joined)
      · cases joined
        exact Nat.lt_succ_self _
    eventMembers := by
      intro event member capture recorded
      rw [length_append, length_singleton]
      exact Nat.lt_succ_of_lt (sound.eventMembers event member capture recorded) }

theorem endCapture (graph : GraphHandle) :
    Sound { s with
      captures := s.captures.filter fun capture =>
        !(capture.2.capturing && capture.2.graph == graph)
      begun := s.begun.map fun capture =>
        if capture.graph = graph then { capture with ended := true } else capture } := by
  have captured := getCaptureGraph_filter sound.handles graph
  have active := activeGraph_map s.begun graph
  have wasActive : ∀ {capture other}, activeGraph (s.begun.map fun capture =>
      if capture.graph = graph then { capture with ended := true } else capture) capture =
        some other → activeGraph s.begun capture = some other ∧ other ≠ graph := by
    intro capture other isActive
    rw [active, Option.filter_eq_some_iff] at isActive
    exact ⟨isActive.1, by simpa using isActive.2⟩
  exact {
    handles := sound.handles.sublist (filter_sublist.map _)
    follows := by
      intro thread stream usable
      rw [captured, sound.follows thread stream usable, State.recording, State.recording]
      cases s.member (streamOf thread stream) with
      | none => rfl
      | some capture => exact (active capture).symm
    defaults := by
      intro stream isDefault
      rw [captured, sound.defaults stream isDefault]
      rfl
    entries := by
      intro stream other found
      rw [captured, Option.filter_eq_some_iff] at found
      obtain ⟨capture, isActive⟩ := sound.entries stream other found.1
      refine ⟨capture, ?_⟩
      rw [active, isActive, Option.filter_some, if_pos found.2]
    carried := by
      intro capture other isActive
      obtain ⟨was, different⟩ := wasActive isActive
      obtain ⟨stream, found⟩ := sound.carried capture other was
      refine ⟨stream, ?_⟩
      rw [captured, found, Option.filter_some, if_pos (by simpa using different)]
    owned := fun capture other isActive => sound.owned capture other (wasActive isActive).1
    present := fun capture other isActive => sound.present capture other (wasActive isActive).1
    eventHandles := sound.eventHandles
    events := fun event member capture other recorded isActive =>
      sound.events event member capture other recorded (wasActive isActive).1
    plainEvents := sound.plainEvents
    members := by
      intro stream capture joined
      rw [length_map]
      exact sound.members stream capture joined
    eventMembers := by
      intro event member capture recorded
      rw [length_map]
      exact sound.eventMembers event member capture recorded }

theorem join (thread : Nat) (created : isDefaultHandle stream = false)
    (active : activeGraph s.begun capture = some graph)
    (room : ∀ other, getCaptureGraph s.captures stream = some other → other = graph) :
    Sound { s with
      captures := s.captures.assign stream ⟨true, graph⟩
      member := Function.update s.member (streamOf thread stream) (some capture) } := by
  have named := streamOf_created thread created
  exact { sound with
    handles := nodup_assign sound.handles _ _
    follows := by
      intro other handle usable
      simp only [State.recording, getCaptureGraph_assign, named]
      by_cases same : streamOf other handle = .created stream
      · rw [same, update_self, Option.bind_some, active]
        obtain rfl := eq_of_streamOf same
        exact if_pos rfl
      · have different : stream ≠ handle := by
          rintro rfl
          exact same (streamOf_created _ created)
        rw [if_neg different, update_of_ne same]
        exact sound.follows other handle usable
    defaults := sound.defaults_assign created _
    entries := by
      intro other held captured
      rw [getCaptureGraph_assign] at captured
      split at captured
      · cases captured
        exact ⟨capture, active⟩
      · exact sound.entries other held captured
    carried := by
      intro other held isActive
      obtain ⟨handle, captured⟩ := sound.carried other held isActive
      refine ⟨handle, ?_⟩
      rw [getCaptureGraph_assign]
      split
      · next same =>
          subst same
          rw [room held captured]
      · exact captured
    members := members_update sound.members _ fun _ joined => by
      cases joined
      exact activeGraph_lt active }

end

/-! ## One step -/

theorem assign_self {map : Captures} {state : CaptureState}
    (found : map.find? stream = some state) : map.assign stream state = map := by
  induction map with
  | nil => cases found
  | cons head map ih =>
    obtain ⟨handle, held⟩ := head
    rw [AssocMap.find?] at found
    rw [assign]
    split at found
    · next same =>
        cases found
        rw [if_pos same, same]
    · next different => rw [if_neg different, ih found]

theorem waitEvent_cases (captures : Captures) (stream : StreamHandle) (captureGraph : GraphHandle)
    (waited : CudaError) :
    (captureGraph ≠ 0 ∧ captureStillActive captures captureGraph = true ∧
        ((∃ other, getCaptureGraph captures stream = some other ∧ other ≠ captureGraph ∧
            cudaStreamWaitEvent captures stream captureGraph waited =
              (.invalidValue, captures)) ∨
          (getCaptureGraph captures stream = some captureGraph ∧
            cudaStreamWaitEvent captures stream captureGraph waited = (.success, captures)) ∨
          getCaptureGraph captures stream = none ∧
            cudaStreamWaitEvent captures stream captureGraph waited =
              (.success, captures.assign stream ⟨true, captureGraph⟩))) ∨
      ¬ (captureGraph ≠ 0 ∧ captureStillActive captures captureGraph = true) ∧
        cudaStreamWaitEvent captures stream captureGraph waited = (waited, captures) := by
  by_cases active : captureGraph ≠ 0 ∧ captureStillActive captures captureGraph = true
  · refine .inl ⟨active.1, active.2, ?_⟩
    rw [cudaStreamWaitEvent, if_pos active]
    simp only [capturing_getD]
    cases captured : getCaptureGraph captures stream with
    | none => exact .inr (.inr ⟨rfl, by simp⟩)
    | some other =>
      have found := getCaptureGraph_eq_some.mp captured
      by_cases same : other = captureGraph
      · subst same
        refine .inr (.inl ⟨rfl, ?_⟩)
        rw [found, Option.getD_some, if_neg (by simp), assign_self found]
      · refine .inl ⟨other, rfl, same, ?_⟩
        rw [found, Option.getD_some, if_pos (by simpa using same)]
  · exact .inr ⟨active, by rw [cudaStreamWaitEvent, if_neg active]⟩

/-- An event of a capture that has not ended carries its graph, and the capture has a stream. -/
theorem active_of_recorded (sound : Sound s) (known : s.events.find? event = some found)
    (recorded : found.recordedIn = some capture) (active : activeGraph s.begun capture ≠ none) :
    activeGraph s.begun capture = some found.captureGraph ∧ found.captureGraph ≠ 0 ∧
      captureStillActive s.captures found.captureGraph = true := by
  obtain ⟨graph, isActive⟩ := Option.ne_none_iff_exists'.mp active
  have same := sound.events _ (mem_of_find? known) capture graph recorded isActive
  simp only at same
  subst same
  exact ⟨isActive, sound.present _ _ isActive,
    (captureStillActive_iff sound.handles _).mpr (sound.carried _ _ isActive)⟩

theorem waitEvent (sound : Sound s) {waited : CudaError} (known : s.events.find? event = some found)
    (clean : Clean s (.waitEvent thread stream event waited)) :
    Sound { s with
      captures := (cudaStreamWaitEvent s.captures stream found.captureGraph waited).2
      member :=
        if (cudaStreamWaitEvent s.captures stream found.captureGraph waited).1 = .success ∧
            ∃ capture ∈ found.recordedIn, activeGraph s.begun capture ≠ none then
          Function.update s.member (streamOf thread stream) found.recordedIn
        else s.member } := by
  rcases waitEvent_cases s.captures stream found.captureGraph waited with
    ⟨present, active, ⟨other, _, _, refused⟩ | ⟨captured, joined⟩ | ⟨idle, joined⟩⟩ | ⟨plain, done⟩
  · rw [refused]
    exact sound
  · rw [joined]
    simp only [true_and]
    split
    · next recorded =>
        obtain ⟨capture, isRecorded, isActive⟩ := recorded
        have carries := sound.active_of_recorded known isRecorded isActive
        have created : isDefaultHandle stream = false := by
          by_contra isDefault
          rw [sound.defaults stream (Bool.eq_true_of_not_eq_false isDefault)] at captured
          cases captured
        have again := sound.join thread created carries.1
          (fun other held => Option.some.inj (held.symm.trans captured))
        rw [assign_self (getCaptureGraph_eq_some.mp captured)] at again
        rw [Option.mem_def.mp isRecorded]
        exact again
    · exact sound
  · obtain ⟨created, capture, isRecorded, isActive⟩ := clean found known idle present active
    have carries := sound.active_of_recorded known isRecorded isActive
    rw [joined]
    simp only [true_and]
    rw [if_pos ⟨capture, isRecorded, isActive⟩, Option.mem_def.mp isRecorded]
    exact sound.join _ created carries.1 fun other held => by rw [idle] at held; cases held
  · rw [done, if_neg]
    · exact sound
    · rintro ⟨_, capture, isRecorded, isActive⟩
      obtain ⟨_, present, active⟩ := sound.active_of_recorded known isRecorded isActive
      exact plain ⟨present, active⟩

theorem recordEvent (sound : Sound s)
    {marked : CudaError} (known : s.events.find? event = some found) (usable : s.Usable stream) :
    Sound { s with
      events := s.events.assign event
        ⟨(cudaEventRecord s.captures stream found.captureGraph marked).2,
          if (cudaEventRecord s.captures stream found.captureGraph marked).1 = .success then
            s.current (streamOf thread stream)
          else found.recordedIn⟩ } := by
  refine sound.changeEvents (nodup_assign sound.eventHandles _ _) ?_
  intro other member
  rcases mem_assign member with rfl | before
  · have follows := sound.follows thread stream usable
    rw [State.recording] at follows
    rw [cudaEventRecord, State.current]
    cases captured : getCaptureGraph s.captures stream with
    | some graph =>
      rw [captured] at follows
      obtain ⟨capture, joined, active⟩ := Option.bind_eq_some_iff.mp follows.symm
      refine .inr (.inr ⟨capture, ?_, active⟩)
      simp only [if_true, joined]
      rw [Option.filter_some, if_pos (by rw [active]; rfl)]
    | none =>
      rw [captured] at follows
      by_cases succeeded : marked = .success
      · refine .inr (.inl ⟨?_, by simp [succeeded]⟩)
        simp only [succeeded, if_true]
        cases joined : s.member (streamOf thread stream) with
        | none => rfl
        | some capture =>
          rw [joined, Option.bind_some] at follows
          rw [Option.filter_some, ← follows]
          rfl
      · refine .inl ?_
        simp only [succeeded, if_false]
        exact mem_of_find? known
  · exact .inl before

variable {action : Action}

theorem step (sound : Sound s) (clean : Clean s action) (stepped : s.next action = some after) :
    Sound after := by
  cases action with
  | createStream stream =>
    rw [State.next] at stepped
    split at stepped
    · cases stepped
    · next accepted =>
        cases stepped
        refine sound.createStream ?_ clean
        exact Bool.eq_false_of_not_eq_true fun isDefault => accepted (.inl isDefault)
  | destroyStream stream =>
    rw [State.next] at stepped
    split at stepped
    · cases stepped
      exact sound.destroyStreams (filter_subset_self _)
    · cases stepped
  | deviceReset thread =>
    cases stepped
    exact (sound.destroyStreams (nil_subset _)).forgetThread thread
  | createEvent event =>
    rw [State.next] at stepped
    split at stepped
    · cases stepped
    · next unknown =>
        cases stepped
        have fresh := Bool.eq_false_of_not_eq_true unknown
        rw [contains_eq_false_iff] at fresh
        refine sound.changeEvents ?_ ?_
        · rw [map_append, nodup_append]
          refine ⟨sound.eventHandles, by simp, ?_⟩
          intro handle member other last same
          obtain rfl : other = event := mem_singleton.mp last
          exact fresh (same ▸ member)
        · intro other member
          refine (mem_append.mp member).imp id fun last => .inl ?_
          rw [mem_singleton.mp last]
          exact ⟨rfl, rfl⟩
  | destroyEvent event =>
    cases stepped
    exact sound.changeEvents (sound.eventHandles.sublist (filter_sublist.map _))
      fun other member => .inl (mem_of_mem_filter member)
  | createGraph graph =>
    rw [State.next] at stepped
    split at stepped
    · cases stepped
    · cases stepped
      refine sound.changeGraphs ?_
      intro other capture _ owned
      rw [AssocMap.find?_append, owned]
      rfl
  | destroyGraph graph =>
    rw [State.next] at stepped
    split at stepped
    · cases stepped
    · next ended =>
        cases stepped
        refine sound.changeGraphs ?_
        intro other capture active owned
        have different : other ≠ graph := by
          rintro rfl
          refine ended ⟨capture, ?_, by rw [active]; exact Option.some_ne_none _⟩
          rw [owned]
          rfl
        rw [find?_filter_key s.graphs (· ≠ graph), if_pos (by simpa using different)]
        exact owned
  | beginCapture thread stream new =>
    rw [State.next] at stepped
    split at stepped
    · cases stepped
    · next accepted =>
        obtain ⟨_, present, fresh⟩ := by simpa only [not_or, not_not] using accepted
        simp only [cudaStreamBeginCapture, capturing_getD] at stepped
        cases captured : getCaptureGraph s.captures stream with
        | some graph =>
          rw [captured] at stepped
          cases stepped
          exact sound
        | none =>
          rw [captured] at stepped
          cases stepped
          exact sound.beginCapture clean present (Bool.eq_false_of_not_eq_true fresh) captured
  | endCapture stream =>
    rw [State.next, cudaStreamEndCapture] at stepped
    split at stepped
    · cases stepped
    · cases captured : getCaptureGraph s.captures stream with
      | none =>
        rw [captured] at stepped
        cases stepped
        exact sound
      | some graph =>
        rw [captured] at stepped
        cases stepped
        exact sound.endCapture graph
  | recordEvent thread event stream marked =>
    simp only [State.next] at stepped
    cases known : s.events.find? event with
    | none => rw [known] at stepped; cases stepped
    | some found =>
      rw [known] at stepped
      simp only at stepped
      split at stepped
      · cases stepped
      · next usable =>
          cases stepped
          exact sound.recordEvent known (not_not.mp usable)
  | waitEvent thread stream event waited =>
    simp only [State.next] at stepped
    cases known : s.events.find? event with
    | none => rw [known] at stepped; cases stepped
    | some found =>
      rw [known] at stepped
      simp only at stepped
      split at stepped
      · cases stepped
      · cases stepped
        exact sound.waitEvent known clean

/-- A default stream that captures does so under one of its names, or for all threads. -/
theorem not_follows_of_default (sound : Sound s) (thread : Nat)
    (isDefault : isDefaultHandle stream = true)
    (captured : after.captures = s.captures.assign stream ⟨true, graph⟩)
    (here : after.recording (streamOf thread stream) = some graph)
    (others : ∀ other, other ≠ streamOf thread stream → after.recording other = s.recording other) :
    ¬ FollowsStreams after := by
  intro follows
  by_cases isLegacy : isLegacyStreamHandle stream = true
  · -- The other name of the legacy stream.
    have names : ∃ other, other ≠ stream ∧ isLegacyStreamHandle other = true := by
      rw [isLegacyStreamHandle, decide_eq_true_eq] at isLegacy
      rcases isLegacy with rfl | rfl
      · exact ⟨1, by decide, by decide⟩
      · exact ⟨0, by decide, by decide⟩
    obtain ⟨other, different, legacy⟩ := names
    have same : streamOf thread other = streamOf thread stream := by
      rw [streamOf, streamOf, if_pos legacy, if_pos isLegacy]
    have otherDefault : isDefaultHandle other = true := by rw [isDefaultHandle, legacy]; rfl
    have recorded := follows thread other (.inl otherDefault)
    rw [captured, getCaptureGraph_assign, if_neg different.symm, sound.defaults other otherDefault,
      same, here] at recorded
    cases recorded
  · -- The stream of another thread.
    have perThread : isPerThreadStreamHandle stream = true := by
      rw [isDefaultHandle, Bool.or_eq_true_iff] at isDefault
      exact isDefault.resolve_left isLegacy
    have named : ∀ thread, streamOf thread stream = .perThread thread := by
      intro thread
      rw [streamOf, if_neg isLegacy, if_pos perThread]
    have different : streamOf (thread + 1) stream ≠ streamOf thread stream := by
      rw [named, named]
      simp
    have recorded := follows (thread + 1) stream (.inl isDefault)
    rw [captured, getCaptureGraph_assign, if_pos rfl, others _ different,
      sound.recording_default _ isDefault] at recorded
    cases recorded

/-- A call that is not clean leaves a stream whose operations are not recorded as they should. -/
theorem unclean (sound : Sound s) (unclean : ¬ Clean s action)
    (stepped : s.next action = some after) : ¬ FollowsStreams after := by
  cases action with
  | createStream stream =>
    rw [State.next] at stepped
    split at stepped
    · cases stepped
    · next accepted =>
        cases stepped
        intro follows
        have recorded := follows 0 stream (.inr mem_cons_self)
        have created : isDefaultHandle stream = false :=
          Bool.eq_false_of_not_eq_true fun isDefault => accepted (.inl isDefault)
        simp only [State.recording, streamOf_created _ created, update_self,
          Option.bind_none] at recorded
        exact unclean recorded
  | beginCapture thread stream new =>
    have isDefault : isDefaultHandle stream = true := Bool.eq_true_of_not_eq_false unclean
    have idle := sound.defaults stream isDefault
    rw [State.next] at stepped
    split at stepped
    · cases stepped
    · simp only [cudaStreamBeginCapture, capturing_getD, idle] at stepped
      cases stepped
      refine sound.not_follows_of_default thread isDefault rfl ?_ ?_
      · simp only [State.recording, update_self, Option.bind_some, activeGraph_snoc,
          if_true]
      · intro other different
        simp only [State.recording, update_of_ne different]
        cases joined : s.member other with
        | none => rfl
        | some capture =>
          have below := sound.members other capture joined
          rw [Option.bind_some, Option.bind_some, activeGraph_snoc, if_neg below.ne]
  | waitEvent thread stream event waited =>
    simp only [Clean, not_forall] at unclean
    obtain ⟨found, known, idle, present, active, foreign⟩ := unclean
    simp only [State.next, known] at stepped
    split at stepped
    · cases stepped
    · next usable =>
        have joined : cudaStreamWaitEvent s.captures stream found.captureGraph waited =
            (.success, s.captures.assign stream ⟨true, found.captureGraph⟩) := by
          rcases waitEvent_cases s.captures stream found.captureGraph waited with
            ⟨_, _, ⟨other, captured, _⟩ | ⟨captured, _⟩ | ⟨_, joined⟩⟩ | ⟨plain, _⟩
          · rw [idle] at captured; cases captured
          · rw [idle] at captured; cases captured
          · exact joined
          · exact absurd ⟨present, active⟩ plain
        rw [joined] at stepped
        cases stepped
        by_cases recorded : ∃ capture ∈ found.recordedIn, activeGraph s.begun capture ≠ none
        · have isDefault : isDefaultHandle stream = true :=
            Bool.eq_true_of_not_eq_false fun created => foreign ⟨created, recorded⟩
          obtain ⟨capture, isRecorded, isActive⟩ := recorded
          have carries := (sound.active_of_recorded known isRecorded isActive).1
          refine sound.not_follows_of_default thread isDefault rfl ?_ ?_
          · simp only [State.recording, true_and]
            rw [if_pos ⟨capture, isRecorded, isActive⟩, update_self,
              Option.mem_def.mp isRecorded, Option.bind_some, carries]
          · intro other different
            simp only [State.recording, true_and]
            rw [if_pos ⟨capture, isRecorded, isActive⟩, update_of_ne different]
        · intro follows
          have now := follows thread stream (not_not.mp usable)
          have before := sound.follows thread stream (not_not.mp usable)
          simp only [State.recording, true_and, if_neg recorded, getCaptureGraph_assign,
            if_true] at now
          rw [idle, State.recording] at before
          rw [← before] at now
          cases now
  | _ => exact absurd trivial unclean

end Sound

/-- Over a run from a program's start, in every state operations are recorded exactly on the streams
that began or joined a capture that has not ended, and no operation appends to the graph of an ended
one, exactly if every call is clean. -/
theorem captures_follow_iff {trail : List (State × Action)} {last : State}
    (run : Guarded.Run (Guarded.Steps State.next) .initial trail last) :
    Guarded.Always (fun s => FollowsStreams s ∧ LeavesEnded s) trail last ↔
      ∀ visited ∈ trail, Clean visited.1 visited.2 :=
  run.always_iff (fun s (sound : Sound s) => ⟨sound.follows, sound.leavesEnded⟩)
    (fun _ _ _ sound clean stepped => sound.step clean stepped)
    (fun _ _ _ sound unclean stepped holds => sound.unclean unclean stepped holds.1) .initial

instance (s : State) : DecidablePred (Clean s)
  | .createStream stream => inferInstanceAs (Decidable (getCaptureGraph s.captures stream = none))
  | .beginCapture _ stream _ => inferInstanceAs (Decidable (isDefaultHandle stream = false))
  | .waitEvent _ stream event _ =>
    match known : s.events.find? event with
    | none => isTrue fun found same => by rw [known] at same; cases same
    | some found =>
      decidable_of_iff (getCaptureGraph s.captures stream = none → found.captureGraph ≠ 0 →
          captureStillActive s.captures found.captureGraph = true →
          isDefaultHandle stream = false ∧
            ∃ capture ∈ found.recordedIn, activeGraph s.begun capture ≠ none)
        ⟨fun clean other same => Option.some.inj (known.symm.trans same) ▸ clean,
          fun clean => clean found known⟩
  | .destroyStream _ | .deviceReset _ | .createEvent _ | .destroyEvent _ | .createGraph _
  | .destroyGraph _ | .endCapture _ | .recordEvent _ _ _ _ => isTrue trivial

/-- A second stream joins a capture through an event. -/
def joinedCapture : List Action :=
  [.createStream 16, .createStream 32, .createEvent 48, .beginCapture 0 16 64,
    .recordEvent 0 48 16 .success, .waitEvent 0 32 48 .success, .endCapture 16]

theorem captures_follow_joined :
    ∃ trail last, trail.map Prod.snd = joinedCapture ∧
      Guarded.Always (fun s => FollowsStreams s ∧ LeavesEnded s) trail last := by
  have ran : (Guarded.execute (fun s a => if Clean s a then s.next a else none) .initial
      joinedCapture).isSome = true := by decide
  obtain ⟨last, executed⟩ := Option.isSome_iff_exists.mp ran
  obtain ⟨trail, actions, run, clean⟩ := Guarded.run_of_guarded executed
  exact ⟨trail, last, actions, (captures_follow_iff run).mpr clean⟩

/-- A stream is destroyed while it captures, and its address is used again. -/
def recycledStream : List Action :=
  [.createStream 16, .beginCapture 0 16 64, .destroyStream 16, .createStream 16]

/-- Operations on the new stream are recorded. -/
theorem recycledStream_captures :
    ¬ ∀ trail last, Guarded.Run (Guarded.Steps State.next) .initial trail last →
      Guarded.Always (fun s => FollowsStreams s ∧ LeavesEnded s) trail last := by
  intro holds
  have ran : ∃ last, Guarded.execute State.next .initial recycledStream = some last ∧
      16 ∈ last.streams ∧ getCaptureGraph last.captures 16 = some 64 ∧
      last.recording (.created 16) = none :=
    ⟨_, rfl, mem_cons_self, rfl, rfl⟩
  obtain ⟨last, executed, usable, captured, outside⟩ := ran
  obtain ⟨trail, _, run⟩ := Guarded.run_of_execute executed
  have recorded := (holds trail last run).2.1 0 16 (.inr usable)
  have named : streamOf 0 16 = .created 16 := rfl
  rw [captured, named, outside] at recorded
  cases recorded

end CuMetal.Runtime.CaptureStates
