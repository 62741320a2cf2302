import DeferredCalls.Proofs.Performing
import DeferredCalls.Proofs.Trail

/-!
# Trees of calls

The callable of a call may run further calls, and theirs may do so again. In a tree of calls every
callable looks around, runs the calls beneath its own one after another, looks around again, and
then returns, fails or panics. A run of the whole tree is the depth-first walk of it: whatever comes
of the calls beneath, those that are left are run all the same, and each node is under its own
context when it is entered and when it is left. The sink gets the failures in the order in which the
nodes are left, each with the path to it. Nothing else remains of the walk.
-/

namespace DeferredCalls

open Holding Moment

/-! ## Trees -/

/-- A call that is run with some arguments, what its callable does at the end, and the calls that
the callable runs before that. -/
inductive CallTree
  | node (call : CallId) (args : Option CallArgs) (ending : Ending) (children : List CallTree)

namespace Ending

/-- What returning, failing or panicking looks like from outside. -/
def result : Ending → Except Panic (Except CallError Unit)
  | normal => .ok (.ok ())
  | fail e => .ok (.error e)
  | panic p => .error p

/-- The error and the traceback that are reported, if anything is. -/
def failure? : Ending → Option (Error × Option String)
  | normal => none
  | fail e => some (.ofCallError e, e.traceback)
  | panic p => some (.panicked p.message, none)

/-- What a run amounts to whose callable ends like this. -/
def outcome (e : Ending) : RunOutcome :=
  match e.failure? with
  | none => .completed
  | some (e, _) => .failed e

end Ending

/-- The ending of the callable at the root. -/
def CallTree.ending : CallTree → Ending
  | node _ _ ending _ => ending

/-- A node of a tree, seen from the root: the calls from the root down to its own. -/
structure Node where
  path : List CallId
  call : CallId
  ending : Ending

/-- What happens on a walk: a node is entered or left, or the run of a node beneath the root is
over. -/
inductive Mark
  | opened (v : Node)
  | closed (v : Node)
  | ran (outcome : RunOutcome)

namespace Mark

/-- The node that is entered. -/
def opened? : Mark → Option Node
  | opened v => some v
  | _ => none

/-- The node that is left. -/
def closed? : Mark → Option Node
  | closed v => some v
  | _ => none

end Mark

namespace CallTree

mutual

/-- The depth-first walk of a tree beneath some calls. -/
def walk (above : List CallId) : CallTree → List Mark
  | node c _ ending children =>
    let v : Node := ⟨above ++ [c], c, ending⟩
    .opened v :: (walkAll (above ++ [c]) children ++ [.closed v])

/-- The walks of several trees, one after another. -/
def walkAll (above : List CallId) : List CallTree → List Mark
  | [] => []
  | n :: ns => n.walk above ++ .ran n.ending.outcome :: walkAll above ns

end

mutual

/-- The nodes of a tree, each before those beneath it. -/
def preorder (above : List CallId) : CallTree → List Node
  | node c _ ending children =>
    ⟨above ++ [c], c, ending⟩ :: preorderAll (above ++ [c]) children

def preorderAll (above : List CallId) : List CallTree → List Node
  | [] => []
  | n :: ns => n.preorder above ++ preorderAll above ns

end

mutual

/-- The nodes of a tree, each after those beneath it. -/
def postorder (above : List CallId) : CallTree → List Node
  | node c _ ending children =>
    postorderAll (above ++ [c]) children ++ [⟨above ++ [c], c, ending⟩]

def postorderAll (above : List CallId) : List CallTree → List Node
  | [] => []
  | n :: ns => n.postorder above ++ postorderAll above ns

end

mutual

/-- On a walk the nodes are entered in preorder, each of them once. -/
theorem opened_walk (above : List CallId) (n : CallTree) :
    (n.walk above).filterMap Mark.opened? = n.preorder above := by
  match n with
  | node c _ ending children =>
    simp [walk, preorder, List.filterMap_cons, Mark.opened?, opened_walkAll]

theorem opened_walkAll (above : List CallId) (ns : List CallTree) :
    (walkAll above ns).filterMap Mark.opened? = preorderAll above ns := by
  match ns with
  | [] => rfl
  | n :: ns =>
    simp [walkAll, preorderAll, List.filterMap_cons, Mark.opened?, opened_walk, opened_walkAll]

end

mutual

/-- The nodes are left in postorder, each of them once. -/
theorem closed_walk (above : List CallId) (n : CallTree) :
    (n.walk above).filterMap Mark.closed? = n.postorder above := by
  match n with
  | node c _ ending children =>
    simp [walk, postorder, List.filterMap_cons, Mark.closed?, closed_walkAll]

theorem closed_walkAll (above : List CallId) (ns : List CallTree) :
    (walkAll above ns).filterMap Mark.closed? = postorderAll above ns := by
  match ns with
  | [] => rfl
  | n :: ns =>
    simp [walkAll, postorderAll, List.filterMap_cons, Mark.closed?, closed_walk, closed_walkAll]

end

mutual

/-- Preorder and postorder have the same nodes, each as often. -/
theorem perm_postorder (above : List CallId) (n : CallTree) :
    (n.preorder above).Perm (n.postorder above) := by
  match n with
  | node c _ ending children =>
    rw [preorder, postorder]
    exact ((perm_postorderAll _ children).cons _).trans (List.perm_append_singleton _ _).symm

theorem perm_postorderAll (above : List CallId) (ns : List CallTree) :
    (preorderAll above ns).Perm (postorderAll above ns) := by
  match ns with
  | [] => exact .refl _
  | n :: ns =>
    rw [preorderAll, postorderAll]
    exact (perm_postorder above n).append (perm_postorderAll above ns)

end

/-- A node is the root or one of a tree beneath, and its path goes through the root. -/
inductive Has : CallTree → Node → Prop
  | root {c : CallId} {args : Option CallArgs} {ending : Ending} {children : List CallTree} :
      Has (node c args ending children) ⟨[c], c, ending⟩
  | beneath {c : CallId} {args : Option CallArgs} {ending : Ending} {children : List CallTree}
      {n : CallTree} {v : Node} (member : n ∈ children) (has : n.Has v) :
      Has (node c args ending children) { v with path := c :: v.path }

mutual

theorem mem_preorder {above : List CallId} {n : CallTree} {v : Node} :
    v ∈ n.preorder above ↔ ∃ u, n.Has u ∧ v = { u with path := above ++ u.path } := by
  match n with
  | node c _ ending children =>
    rw [preorder, List.mem_cons, mem_preorderAll]
    constructor
    · rintro (rfl | ⟨n, member, u, has, rfl⟩)
      · exact ⟨_, .root, rfl⟩
      · exact ⟨_, .beneath member has, by simp⟩
    · rintro ⟨u, has, rfl⟩
      cases has with
      | root => exact .inl rfl
      | beneath member has => exact .inr ⟨_, member, _, has, by simp⟩

theorem mem_preorderAll {above : List CallId} {ns : List CallTree} {v : Node} :
    v ∈ preorderAll above ns ↔
      ∃ n ∈ ns, ∃ u, n.Has u ∧ v = { u with path := above ++ u.path } := by
  match ns with
  | [] => simp [preorderAll]
  | n :: ns => rw [preorderAll, List.mem_append, mem_preorder, mem_preorderAll,
      List.exists_mem_cons_iff]

end

/-- What is visited on a walk from the root are the nodes of the tree. -/
theorem mem_postorder {n : CallTree} {v : Node} : v ∈ n.postorder [] ↔ n.Has v := by
  rw [← (perm_postorder [] n).mem_iff, mem_preorder]
  constructor
  · rintro ⟨u, has, rfl⟩
    exact has
  · intro has
    exact ⟨v, has, rfl⟩

end CallTree

/-! ## Callables that run trees -/

/-- What code of an embedder can make out about contexts and calls. -/
structure Sight where
  ambient : Snapshot
  depth : Nat
  calls : List CallId
  deriving DecidableEq

/-- What can be made out on a thread at the moment. -/
def World.sight (w : World) (t : ThreadId) : Sight :=
  ⟨w.ambient t, (w.contextStack t).depth, w.callStack t⟩

namespace Act

/-- Runs the call at the root of a tree. -/
def runTree (code : Embedder) : CallTree → Act RunOutcome
  | .node c args _ _ => run code c args

/-- Runs the call at the root of a tree, and notes what came of it. -/
def runNoting (code : Embedder) (n : CallTree) : Act Unit := do
  let o ← runTree code n
  note fun _ _ => .did "ran" (.outcome o)

/-- What the callable of a node does: it looks around, runs the calls beneath, looks around again,
and ends. -/
def visit (code : Embedder) (look : Sight → Reply) (ending : Ending) (children : List CallTree) :
    Act (Except CallError Unit) := do
  note fun t w => .did "enter" (look (w.sight t))
  each (runNoting code) children
  note fun t w => .did "leave" (look (w.sight t))
  finish ending

end Act

/-- The code of an embedder performs a tree of calls that all report to one sink, where every call
is in use and can be run. The calls beneath may be run by the same code or by code that is arranged
otherwise, as when an embedder counts how deep it is. -/
inductive Performs (look : Sight → Reply) (w : World) (s : SinkId) : Embedder → CallTree → Prop
  | node {code code' : Embedder} {c : CallId} {args : Option CallArgs} {ending : Ending}
      {children : List CallTree} (emit : code.emit = Act.emit) (used : 0 < w.calls.shares c)
      (there : w.callExists c = true) (sink : w.sinkOf c = some s)
      (invoke : code.invoke (w.callableOf c) args = Act.visit code' look ending children)
      (beneath : ∀ n ∈ children, Performs look w s code' n) :
      Performs look w s code (.node c args ending children)

/-! ## What a walk leaves behind -/

namespace World

variable {w W : World} {t : ThreadId} {s : SinkId} {c : CallId} {look : Sight → Reply}

/-- What is seen at a node: its own context, one install and one call deeper for every call on the
path. -/
def sightOf (w : World) (t : ThreadId) (v : Node) : Sight :=
  ⟨(w.calls.get v.call).context, (w.contextStack t).depth + v.path.length, w.callStack t ++ v.path⟩

/-- What is reported about a node that fails or panics: its own context, and after the calls that
were in progress before the path to it. -/
def reportOf (w : World) (t : ThreadId) (v : Node) : Option Diagnostic :=
  v.ending.failure?.map fun (e, traceback) =>
    { call := w.describeCall v.call
      provenance := (w.calls.get v.call).provenance
      context := w.describeSnapshot (w.calls.get v.call).context
      chain := w.callChain t ++ v.path.map w.describeCall
      error := some e.text
      traceback }

/-- What is noted on a walk, with the event that is logged whenever a node is entered. -/
def notesOfMark (w : World) (t : ThreadId) (look : Sight → Reply) : Mark → List Entry
  | .opened v =>
    w.runningNotes v.call ((w.callStack t).length + v.path.length) ++
      [.did "enter" (look (w.sightOf t v))]
  | .closed v => [.did "leave" (look (w.sightOf t v))]
  | .ran o => [.did "ran" (.outcome o)]

/-- What a walk leaves behind. -/
def trail (w : World) (t : ThreadId) (look : Sight → Reply) (marks : List Mark) : Trail where
  notes := marks.flatMap (w.notesOfMark t look)
  reports := (marks.filterMap Mark.closed?).filterMap (w.reportOf t)
  installs := (marks.filterMap Mark.closed?).length

theorem trail_append (marks more : List Mark) :
    w.trail t look (marks ++ more) = w.trail t look marks ++ w.trail t look more := by
  unfold trail
  simp only [List.flatMap_append, List.filterMap_append, List.length_append]
  rfl

/-- What the callable of a node leaves behind, given what it sees. -/
def visitTrail (w : World) (t : ThreadId) (look : Sight → Reply) (seen : Sight)
    (above : List CallId) (children : List CallTree) : Trail :=
  { notes := [.did "enter" (look seen)] } ++
    (w.trail t look (CallTree.walkAll above children) ++ { notes := [.did "leave" (look seen)] })

/-- The trail of a tree consists of what its root leaves before and after the trees beneath. -/
theorem trail_node {args : Option CallArgs} {ending : Ending} {children : List CallTree}
    {above : List CallId} :
    w.trail t look ((CallTree.node c args ending children).walk above) =
      { installs := 1 } ++
        ({ notes := w.runningNotes c ((w.callStack t).length + (above ++ [c]).length) } ++
          (w.visitTrail t look (w.sightOf t ⟨above ++ [c], c, ending⟩) (above ++ [c]) children ++
            { reports := (w.reportOf t ⟨above ++ [c], c, ending⟩).toList })) := by
  ext1
  · simp [visitTrail, trail, CallTree.walk, notesOfMark]
  · simp only [visitTrail, trail, CallTree.walk, List.filterMap_cons, Mark.closed?,
      List.filterMap_append, Trail.reports_append, List.filterMap_nil, List.nil_append,
      List.append_nil]
    cases w.reportOf t ⟨above ++ [c], c, ending⟩ <;> rfl
  · simp [visitTrail, trail, CallTree.walk, List.filterMap_cons, Mark.closed?, Nat.add_comm]

theorem sight_marked {x : Trail} (u : ThreadId) : (w.marked t s x).sight u = w.sight u := by
  unfold sight
  rw [ambient_marked, callStack_marked]
  congr 1
  exact marked_congr (fun th => th.context.depth) (fun _ _ => rfl) u

/-- A world in which some calls of a tree are in progress, as seen from the world in which the run
of the tree began. -/
structure Beneath (w : World) (t : ThreadId) (above : List CallId) (W : World) : Prop where
  inside : t.index < W.threads.size
  calls : W.callStack t = w.callStack t ++ above
  depth : (W.contextStack t).depth = (w.contextStack t).depth + above.length
  call : ∀ c, W.calls.get c = w.calls.get c
  context : ∀ c, W.contexts.get c = w.contexts.get c
  kind : ∀ s, (W.sinks.get s).kind = (w.sinks.get s).kind
  used : ∀ k, 0 < w.shareCount k → 0 < W.shareCount k
  verbosity : W.verbosity = w.verbosity

namespace Beneath

variable {above : List CallId}

protected theorem refl (inside : t.index < w.threads.size) : w.Beneath t [] w where
  inside := inside
  calls := (List.append_nil _).symm
  depth := rfl
  call _ := rfl
  context _ := rfl
  kind _ := rfl
  used _ := id
  verbosity := rfl

protected theorem marked (beneath : w.Beneath t above W) (s : SinkId) (x : Trail) :
    w.Beneath t above (W.marked t s x) where
  inside := by
    rw [size_threads_marked]
    exact beneath.inside
  calls := callStack_marked.trans beneath.calls
  depth := (congrArg Sight.depth (sight_marked t)).trans beneath.depth
  call := beneath.call
  context := beneath.context
  kind r := by
    refine Eq.trans ?_ (beneath.kind r)
    show ((W.sinks.modify s _).get r).kind = _
    rw [Arena.get_modify_congr Sink.kind]
    exact fun _ => rfl
  used k pos := by
    rw [shareCount_marked]
    exact beneath.used k pos
  verbosity := beneath.verbosity

/-- Entering a call puts it beneath those that were in progress. -/
protected theorem entered (beneath : w.Beneath t above W) (available : W.Available c) :
    w.Beneath t (above ++ [c]) (W.entered t c) := by
  obtain ⟨contexts, context, eq⟩ :=
    (W.calling t c).install_eq (t := t) (W.calls.get c).context
  have inside : t.index < (W.calling t c).threads.size := by
    rw [calling, enterCall, size_threads_onThread]
    exact beneath.inside
  have installed : w.Beneath t (above ++ [c])
      ((W.calling t c).install t (W.calls.get c).context) := {
    inside := by
      rw [eq, setContextStack, size_threads_onThread]
      exact inside
    calls := by
      rw [callStack_installed available beneath.inside, beneath.calls, List.append_assoc]
    depth := by
      rw [contextStack_install inside, ContextStack.depth_install, calling,
        contextStack_enterCall, List.length_append]
      exact congrArg (· + 1) beneath.depth
    call := fun d => by
      rw [eq]
      exact Arena.get_addShare.trans (beneath.call d)
    context := fun d => by
      rw [eq]
      exact (context d).trans (beneath.context d)
    kind := fun r => by
      rw [eq]
      exact beneath.kind r
    used := fun k pos => by
      have calling := (extends_calling (t := t) available).used k (beneath.used k pos)
      exact (Extends.acquireAll fun _ => context_calling available).onThread.used k calling
    verbosity := by
      rw [eq]
      exact beneath.verbosity }
  rw [entered_eq_marked (s := ⟨0⟩) available beneath.inside]
  exact installed.marked _ _

theorem describeCall (beneath : w.Beneath t above W) (d : CallId) :
    W.describeCall d = w.describeCall d := by
  unfold World.describeCall
  rw [beneath.call]

theorem failureReport (beneath : w.Beneath t above W)
    (own : W.ambient t = (w.calls.get c).context) (e : Error) (traceback : Option String) :
    W.failureReport t c e traceback =
      { call := w.describeCall c
        provenance := (w.calls.get c).provenance
        context := w.describeSnapshot (w.calls.get c).context
        chain := w.callChain t ++ above.map w.describeCall
        error := some e.text
        traceback } := by
  have context : (W.position t).context = w.describeSnapshot (w.calls.get c).context := by
    rw [← own]
    exact describeSnapshot_congr beneath.context _
  have chain : W.callChain t = w.callChain t ++ above.map w.describeCall := by
    unfold callChain
    rw [beneath.calls, List.map_append]
    congr 1 <;> exact List.map_congr_left fun d _ => beneath.describeCall d
  unfold World.failureReport
  rw [beneath.describeCall, beneath.call, context, chain]
  rfl

end Beneath

end World

namespace Act

variable {w W : World} {t : ThreadId} {s : SinkId} {c : CallId} {look : Sight → Reply}
  {code : Embedder} {above : List CallId} {ending : Ending} {ns : List CallTree}

theorem finish_apply : finish ending t W = (ending.result, W) := by
  cases ending <;> rfl

/-- The outcome of a run depends on the end of its own callable; the sink gets a diagnostic if that
is a failure. -/
theorem conclude_eq (beneath : w.Beneath t above W)
    (own : W.ambient t = (w.calls.get c).context) (sink : w.sinkOf c = some s)
    (memory : (w.sinks.get s).kind = .memory) :
    conclude emit c ending.result t W = (.ok ending.outcome,
      W.marked t s { reports := (w.reportOf t ⟨above, c, ending⟩).toList }) := by
  have sinkOf : W.sinkOf c = some s := by
    rw [World.sinkOf, beneath.call]
    exact sink
  have kind : W.sinkKind (some s) = .memory := (beneath.kind s).trans memory
  have reported (e : Error) (traceback : Option String) :
      reportFailure emit c e traceback t W = (.ok (.failed e),
        W.marked t s { reports := [W.failureReport t c e traceback] }) := by
    simp only [reportFailure, emit, bind_apply, read_apply, sinkOf, kind, change_apply,
      World.keep_eq_marked (t := t)]
    rfl
  cases ending with
  | normal => exact congrArg _ World.marked_empty.symm
  | fail e =>
    refine (reported _ _).trans ?_
    rw [beneath.failureReport own]
    rfl
  | panic p =>
    refine (reported _ _).trans ?_
    rw [beneath.failureReport own]
    rfl

/-- A tree leaves the trail of its walk, and nothing else, wherever it is run beneath some calls. -/
def Walks (code : Embedder) (look : Sight → Reply) (w : World) (t : ThreadId) (s : SinkId)
    (above : List CallId) (n : CallTree) : Prop :=
  ∀ W, w.Beneath t above W → runTree code n t W =
    (.ok n.ending.outcome, W.marked t s (w.trail t look (n.walk above)))

/-- Runs one after another leave their trails one after another. -/
theorem each_runNoting (beneath : w.Beneath t above W)
    (walks : ∀ n ∈ ns, Walks code look w t s above n) :
    each (runNoting code) ns t W =
      (.ok (), W.marked t s (w.trail t look (CallTree.walkAll above ns))) := by
  induction ns generalizing W with
  | nil => exact congrArg _ World.marked_empty.symm
  | cons n ns ih =>
    have ran := walks n (List.mem_cons_self ..) W beneath
    have noted : runNoting code n t W = (.ok (), W.marked t s
        (w.trail t look (n.walk above ++ [.ran n.ending.outcome]))) := by
      rw [runNoting, bind_of_ok ran, World.trail_append, ← World.marked_marked]
      exact congrArg _ (World.note_eq_marked _)
    rw [each, bind_of_ok noted, ih (beneath.marked s _) fun n member =>
        walks n (List.mem_cons_of_mem _ member),
      World.marked_marked, ← World.trail_append, CallTree.walkAll, List.append_assoc]
    rfl

/-- An invocation ends as its own ending says, whatever comes of the runs beneath. -/
theorem visit_eq (beneath : w.Beneath t above W)
    (walks : ∀ n ∈ ns, Walks code look w t s above n) :
    visit code look ending ns t W =
      (ending.result, W.marked t s (w.visitTrail t look (W.sight t) above ns)) := by
  have entered : note (fun t w => .did "enter" (look (w.sight t))) t W =
      (.ok (), W.marked t s { notes := [.did "enter" (look (W.sight t))] }) :=
    congrArg _ (World.note_eq_marked _)
  rw [visit, bind_of_ok entered, bind_of_ok (each_runNoting (beneath.marked s _) walks),
    World.marked_marked]
  show finish ending t (World.note _ t (.did "leave" (look (World.sight _ t)))) = _
  rw [finish_apply, World.note_eq_marked (s := s), World.sight_marked, World.marked_marked,
    Trail.append_assoc]
  rfl

end Act

/-- A tree leaves the trail of its walk, wherever it is run. -/
theorem Performs.walks {w : World} {t : ThreadId} {s : SinkId} {look : Sight → Reply}
    {code : Embedder} {tree : CallTree} {H : Multiset Holding}
    (performs : Performs look w s code tree) (balanced : w.Balanced H)
    (memory : (w.sinks.get s).kind = .memory) (above : List CallId) :
    Act.Walks code look w t s above tree := by
  induction performs generalizing above with
  | @node code code' c args ending children emit used there sink invoke _ ih =>
    intro W beneath
    have available : W.Available c :=
      (balanced.available used there).mono (beneath.call c) beneath.used
    have entered := beneath.entered available
    have sight : (W.entered t c).sight t = w.sightOf t ⟨above ++ [c], c, ending⟩ := by
      unfold World.sight World.sightOf
      rw [World.ambient_entered available beneath.inside, entered.calls, entered.depth,
        beneath.call]
    have own (x : Trail) : ((W.entered t c).marked t s x).ambient t = (w.calls.get c).context := by
      rw [World.ambient_marked, World.ambient_entered available beneath.inside, beneath.call]
    have visited : Act.visit code' look ending children t _ = _ :=
      Act.visit_eq entered fun n member => ih n member (above ++ [c])
    have callable : W.callableOf c = w.callableOf c := by
      unfold World.callableOf
      rw [beneath.call]
    have invoked : Act.invokeFor code c (w.callableOf c) args t (W.entered t c) =
        (.ok ending.outcome, (W.entered t c).marked t s
          (w.visitTrail t look ((W.entered t c).sight t) (above ++ [c]) children ++
            { reports := (w.reportOf t ⟨above ++ [c], c, ending⟩).toList })) := by
      rw [Act.invokeFor, invoke, emit]
      show Act.conclude Act.emit c (Act.visit code' look ending children t _).1 t
        (Act.visit code' look ending children t _).2 = _
      rw [visited, Act.conclude_eq (entered.marked s _) (own _) sink memory, World.marked_marked]
    have running : W.runningNotes c ((W.callStack t).length + 1) =
        w.runningNotes c ((w.callStack t).length + (above ++ [c]).length) := by
      unfold World.runningNotes
      rw [World.logNotes_congr beneath.verbosity, beneath.calls, List.length_append,
        List.length_append, Nat.add_assoc]
      rfl
    show Act.run code c args t W = _
    rw [Act.run_of_exists available.callExists, callable, invoked,
      World.exited_entered available beneath.inside, World.trail_node, sight, running]
    rfl

/-! ## Runs of trees -/

open Act

/-- What the run of a tree amounts to: its outcome, what is noted and what is collected, and that
nothing else remains of it. -/
structure Walked (look : Sight → Reply) (w : World) (t : ThreadId) (s : SinkId) (code : Embedder)
    (tree : CallTree) : Prop where
  /-- The outcome of the run depends only on how the callable of the root ends. Those of the runs
  beneath are noted on the walk. -/
  outcome : (runTree code tree t w).1 = .ok tree.ending.outcome
  /-- On entering its callable and before leaving it, every node sees its own context. -/
  notes : (runTree code tree t w).2.notesOf t =
    w.notesOf t ++ (tree.walk []).flatMap (w.notesOfMark t look)
  entered : (tree.walk []).filterMap Mark.opened? = tree.preorder []
  left : (tree.walk []).filterMap Mark.closed? = tree.postorder []
  once : (tree.preorder []).Perm (tree.postorder [])
  nodes : ∀ v, v ∈ tree.postorder [] ↔ tree.Has v
  /-- The sink gets one diagnostic for every node that fails or panics, in postorder. -/
  collected : ((runTree code tree t w).2.sinks.get s).entries =
    (w.sinks.get s).entries ++ (tree.postorder []).filterMap (w.reportOf t)
  sight : (runTree code tree t w).2.sight t = w.sight t
  /-- But for notes, diagnostics and the number of installs, the world is what it was. -/
  world : (runTree code tree t w).2 = w.marked t s (w.trail t look (tree.walk []))

/-- The run of a tree of calls, of any shape and with any endings, is its depth-first walk. -/
theorem run_walks_tree {look : Sight → Reply} {w : World} {t : ThreadId} {s : SinkId}
    {code : Embedder} {tree : CallTree} {H : Multiset Holding} (ready : Ready ⟨w, H⟩ t)
    (performs : Performs look w s code tree) (memory : (w.sinks.get s).kind = .memory) :
    Walked look w t s code tree := by
  have walks := performs.walks ready.consistent.balanced memory [] w (.refl ready.inside)
  have collecting : s.index < w.sinks.size :=
    Arena.lt_size_of_ne Sink.kind (by rw [memory]; decide)
  constructor
  case outcome => rw [walks]
  case world => rw [walks]
  case notes =>
    rw [walks]
    exact World.notesOf_marked
  case entered => exact tree.opened_walk []
  case left => exact tree.closed_walk []
  case once => exact tree.perm_postorder []
  case nodes => exact fun v => CallTree.mem_postorder
  case collected =>
    rw [walks, World.entries_marked collecting, ← tree.closed_walk]
    rfl
  case sight =>
    rw [walks]
    exact World.sight_marked t

namespace Round

/-- Two contexts, one of them ambient, and four calls that report to one sink. -/
def prepare : Act Unit := script (performer 1) (
  [("sink", .newSink "box" .memory), ("context", .newContext "hall" "hall"),
    ("context", .newContext "attic" "attic"), ("install", .install "hall" "gate")] ++
  ["root", "part", "leaf", "rest"].flatMap fun name =>
    [("callable", .newCallable name none [] 0 []),
      ("call", .newCall name (.callable name)
        (some { context := some "attic", sink := some "box" }))])

/-- The world in which the tree is run. -/
def world : World :=
  (prepare Session.driver (Session.start none)).2

/-- The callables beneath the root: one that panics, one that fails after the first one was run, and
another one that panics. -/
def leaf : CallTree := .node ⟨2⟩ none (.panic ⟨some "stuck"⟩) []

def part : CallTree := .node ⟨1⟩ (some (.int 1)) (.fail { description := "lost" }) [leaf]

def rest : CallTree := .node ⟨3⟩ none (.panic ⟨none⟩) []

/-- The root returns normally all the same. -/
def tree : CallTree := .node ⟨0⟩ none .normal [part, rest]

/-- What is noted of a sight: how many installs and calls there are. -/
def look (x : Sight) : Reply :=
  .count (x.depth + x.calls.length)

/-- The code of an embedder whose calls are nested at most some levels deep. -/
def code : Nat → Embedder
  | 0 => ⟨fun _ _ => pure (.ok ()), emit⟩
  | level + 1 =>
    { invoke := fun f _ =>
        match f.index with
        | 0 => visit (code level) look .normal [part, rest]
        | 1 => visit (code level) look (.fail { description := "lost" }) [leaf]
        | 2 => visit (code level) look (.panic ⟨some "stuck"⟩) []
        | _ => visit (code level) look (.panic ⟨none⟩) []
      emit := emit }

theorem ready_of_lt : ∀ i < 4, 0 < world.calls.shares ⟨i⟩ ∧ world.callExists ⟨i⟩ = true ∧
    world.sinkOf ⟨i⟩ = some ⟨0⟩ ∧ world.callableOf ⟨i⟩ = ⟨i⟩ := by
  decide +kernel

theorem performs_node {i : Nat} {args : Option CallArgs} {level : Nat} {ending : Ending}
    {children : List CallTree} (known : i < 4)
    (invoke : (code (level + 1)).invoke ⟨i⟩ args = visit (code level) look ending children)
    (beneath : ∀ n ∈ children, Performs look world ⟨0⟩ (code level) n) :
    Performs look world ⟨0⟩ (code (level + 1)) (.node ⟨i⟩ args ending children) := by
  obtain ⟨used, there, sink, callable⟩ := ready_of_lt i known
  refine .node rfl used there sink ?_ beneath
  rw [callable]
  exact invoke

theorem performs : Performs look world ⟨0⟩ (code 3) tree := by
  have part : Performs look world ⟨0⟩ (code 2) part := by
    refine performs_node (by decide) rfl ?_
    rintro n member
    rw [List.mem_singleton.mp member]
    exact performs_node (by decide) rfl fun _ none => nomatch none
  refine performs_node (by decide) rfl ?_
  rintro n member
  rcases List.mem_cons.mp member with rfl | member
  · exact part
  · rw [List.mem_singleton.mp member]
    exact performs_node (by decide) rfl fun _ none => nomatch none

/-- The failures are collected in postorder, each with the path to it, and nothing remains of the
contexts and the calls. -/
theorem walk_of_round :
    (runTree (code 3) tree Session.driver world).1 = .ok .completed ∧
    ((runTree (code 3) tree Session.driver world).2.sinks.get ⟨0⟩).entries.map Diagnostic.chain =
      [[⟨0⟩, ⟨1⟩, ⟨2⟩], [⟨0⟩, ⟨1⟩], [⟨0⟩, ⟨3⟩]].map (List.map world.describeCall) ∧
    (runTree (code 3) tree Session.driver world).2.sight Session.driver = ⟨.of ⟨0⟩, 1, []⟩ := by
  have prepared : prepare.Lawful := lawful_script (performer_lawful 1) _
  have start := Session.ready_start none
  have walked := run_walks_tree (w := world) (start.reaches (prepared start)) performs
    (by decide +kernel)
  have outside : world.callStack Session.driver = [] := by decide +kernel
  have before : (world.sinks.get ⟨0⟩).entries = [] := by decide +kernel
  refine ⟨walked.outcome, ?_, walked.sight.trans (by decide +kernel)⟩
  rw [walked.collected, before]
  simp [tree, part, leaf, rest, CallTree.postorder, CallTree.postorderAll, World.reportOf,
    Ending.failure?, World.callChain, outside]

end Round

end DeferredCalls
