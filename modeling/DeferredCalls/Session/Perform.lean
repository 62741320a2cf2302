import DeferredCalls.Session.Callables
import DeferredCalls.Session.Calls
import DeferredCalls.Session.Contexts
import DeferredCalls.Session.Schedulers
import DeferredCalls.Session.Threads

/-!
# Performing commands

What each command does, given how the commands of nested scripts are performed, and the performer
that ties the knot. A command that names an object holds a share of it until it is done.
-/

namespace DeferredCalls.Act

/-- What a command does. -/
def interpret (self : Performer) : Command → Act Reply
  | .newContext id label => newContext id label
  | .emptyContext id => keepSnapshot id .empty
  | .cloneContext id source => withNamed Drawer.contexts source fun s => keepSnapshot id s
  | .wrapContext id source =>
    withNamed Drawer.contexts source fun s =>
      if s.isEmpty then pure .stateless else keepSnapshot id s
  | .dropContext id => dropNamed Drawer.contexts id
  | .capture id => do keepSnapshot id (← read fun t w => w.ambient t)
  | .describeContext id =>
    withNamed Drawer.contexts id fun s =>
      read fun _ w => .context s.isEmpty (w.describeSnapshot s) (w.debugSnapshot s)
  | .sameContext a b =>
    withNamed Drawer.contexts a fun s => withNamed Drawer.contexts b fun s' =>
      pure (.flag (s == s'))
  | .install context guardName => installNamed context guardName
  | .dropGuard guardName => dropNamed Drawer.guards guardName
  | .describeGuard guardName =>
    withNamed Drawer.guards guardName fun g =>
      read fun _ w => .guard (w.describeSnapshot g.previous) (w.debugGuard g)
  | .within context body ending => within self context body ending
  | .observe =>
    read fun t w => .observed (w.position t) (w.callChain t)
      ((w.callStack t).getLast?.map w.describeCall)
  | .newCallable id title body limit endings => newCallable id title body limit endings
  | .dropCallable id => dropNamed Drawer.callables id
  | .describeCallable id =>
    withNamed Drawer.callables id fun f =>
      read fun _ w => .words (w.callables.get f).description
  | .countShares id =>
    withNamed Drawer.callables id fun f => read fun _ w => .count (w.callables.shares f)
  | .invoke id args => invokeNamed self id args
  | .describeArgs args => pure (.args args)
  | .newHandle id callable mode =>
    withNamed Drawer.callables callable fun f => keepHandle id (.ofMode mode f)
  | .cloneHandle id source => withNamed Drawer.handles source fun h => keepHandle id h
  | .downgradeHandle id source =>
    withNamed Drawer.handles source fun h => keepHandle id h.downgrade
  | .describeHandle id =>
    withNamed Drawer.handles id fun h => read fun _ w => .handle (w.viewHandle h)
  | .obtain id callable => obtainNamed id callable
  | .dropHandle id => dropNamed Drawer.handles id
  | .newSink id kind => newSink id kind
  | .readSink id take => withNamed Drawer.sinks id fun s => readSink s take
  | .emitReport sink call =>
    withNamed Drawer.sinks sink fun s => withNamed Drawer.calls call fun c => do
      emit (some s) (← read fun t w => w.contextReport t c)
      pure .nothing
  | .newCall id source options => newCall id source options
  | .cloneCall id source =>
    withNamed Drawer.calls source fun c => do
      keepCall id c
      pure .nothing
  | .dropCall id => dropNamed Drawer.calls id
  | .markDead call =>
    withNamed Drawer.calls call fun c => do
      change fun t w => w.markDead t c
      pure .nothing
  | .run call args =>
    withNamed Drawer.calls call fun c => holding (.call c) do
      pure (.outcome (← run (embedder self) c args))
  | .schedule call scheduler weakly args =>
    withNamed Drawer.calls call fun c => withScheduler scheduler false fun s => do
      pure (acceptance (← schedule s c weakly args))
  | .describeCall call =>
    withNamed Drawer.calls call fun c => read fun _ w => .call (viewCall c w)
  | .callExists call =>
    withNamed Drawer.calls call fun c => read fun _ w => .flag (w.callExists c)
  | .reportContext call =>
    withNamed Drawer.calls call fun c => read fun t w => .diagnostic (w.contextReport t c)
  | .printContext call =>
    withNamed Drawer.calls call fun c => do
      printContext c
      pure .nothing
  | .sameCall a b =>
    withNamed Drawer.calls a fun c => withNamed Drawer.calls b fun c' => pure (.flag (c == c'))
  | .olderCall a b =>
    withNamed Drawer.calls a fun c => withNamed Drawer.calls b fun c' =>
      pure (.flag (c.index < c'.index))
  | .currentCall id => currentCall id
  | .downgradeCall id call =>
    withNamed Drawer.calls call fun c => do
      put Drawer.weaks id c
      pure .nothing
  | .cloneWeak id source =>
    withNamed Drawer.weaks source fun c => do
      put Drawer.weaks id c
      pure .nothing
  | .dropWeak id => dropNamed Drawer.weaks id
  | .describeWeak id =>
    withNamed Drawer.weaks id fun c => read fun _ w =>
      .weak (World.callLabel c) (World.callIdDebug c) (w.callAlive c) (w.debugWeak c)
  | .upgrade id call => upgrade id call
  | .newLoop id settings => newLoop id settings
  | .dropLoop id => dropNamed Drawer.loops id
  | .runPending loop =>
    withNamed Drawer.loops loop fun l => holding (.loop l) do
      pure (.count (← runPending (runTask self) l))
  | .runUntilIdle loop =>
    withNamed Drawer.loops loop fun l => holding (.loop l) (driveUntilIdle self l)
  | .runLoop loop trusting =>
    withNamed Drawer.loops loop fun l => holding (.loop l) (driveUntilClosed self l trusting)
  | .describeLoop loop =>
    withNamed Drawer.loops loop fun l => read fun t w =>
      let loop := w.loop l
      .loop loop.name loop.queue.length (loop.owner == t) loop.violation loop.debug
  | .newLoopHandle id loop =>
    withNamed Drawer.loops loop fun l => do
      put Drawer.loopHandles id l
      pure .nothing
  | .currentLoop id => currentLoopNamed id
  | .describeLoopHandle handle =>
    withNamed Drawer.loopHandles handle fun l => read fun t w =>
      let loop := w.loop l
      .loopHandle loop.name loop.closed loop.queue.length (loop.owner == t) loop.handleDebug
  | .shutdown handle =>
    withNamed Drawer.loopHandles handle fun l => do
      change fun t w => w.shutdownLoop t l
      pure .nothing
  | .dropLoopHandle id => dropNamed Drawer.loopHandles id
  | .post scheduler onlyHandle tag body ending holds =>
    withScheduler scheduler onlyHandle fun s => do
      pure (acceptance (← post s (.job { tag, body, ending, holds := ← callsNamed holds })))
  | .describeScheduler scheduler =>
    withScheduler scheduler false fun s =>
      read fun t w => .scheduler (w.isDesignated t s) (w.violationOf s)
  | .newManual id designated violation reject => newManual id { designated, violation, reject }
  | .runManual id =>
    withNamed Drawer.manuals id fun m => holding (.manual m) do
      pure (.count (← runManual (runTask self) m))
  | .dropManual id => dropNamed Drawer.manuals id
  | .thread name body => newThread self name body
  | .spawnLoopThread id settings => spawnLoopThread self id settings
  | .syncLoopThread id tag body ending holds =>
    withNamed Drawer.loopHandles id fun l => do
      syncLoopThread self l { tag, body, ending, holds := ← callsNamed holds }
  | .shutdownLoopThread id => shutdownLoopThread self id
  | .dropLoopThread id => dropLoopThreadNamed self id
  | .note text => pure (.words text)
  | .unknown verb => pure (.unknown verb)

/-- Performs a command if commands are still performed, which uses up one of them. -/
def spend (m : Act Reply) : Act Reply := do
  if ← read fun _ w => w.allowance == 0 then pure .outOfSteps
  else
    change fun _ w => { w with allowance := w.allowance - 1 }
    m

/-- Performs a command whose scripts are nested at most `depth` deep. Each level of nesting uses up
a command, so a depth of at least the number of commands still performed makes no difference. -/
def performer : Nat → Performer
  | 0 => fun _ => pure .outOfSteps
  | depth + 1 => fun command => spend (interpret (performer depth) command)

end DeferredCalls.Act
