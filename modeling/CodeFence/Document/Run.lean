import CodeFence.Document.Event
import CodeFence.Fence.Block
import CodeFence.Fence.Span
import CodeFence.Highlighter

set_option autoImplicit false

namespace CodeFence

abbrev Rendering := Call Text

def Highlighter.rendering (highlighter : Highlighter) (earlier : Nat) (family : Family) (raw : Text) : Rendering :=
  match Block.parse family raw with
  | .error fault => ⟨[], .error fault⟩
  | .ok block => highlighter.fragmentCall earlier block.code block.language

-- The state of a document between two rounds, and what happened up to there. Where someone listens to the log, there
-- is the slug that its entries name.
structure Report where
  content : Text
  slug? : Option Text := none
  blocks : Nat := 0
  skipped : Nat := 0
  abortedAt : Option Nat := none
  events : List Event := []
  log : List Entry := []
deriving DecidableEq, Repr

namespace Report

def requests (report : Report) : List Request :=
  report.events.filterMap Event.request?

def heard? (report : Report) (event : Event) : Option Entry :=
  report.slug?.bind fun slug => event.entry? slug

def emit (report : Report) (event : Event) : Report :=
  { report with
    events := report.events ++ [event]
    log := report.log ++ (report.heard? event).toList }

def unterminated (report : Report) (opening : Opening) : Report :=
  { report with
    blocks := report.blocks + 1
    abortedAt := some opening.before.byteLength }.emit (.unterminated opening.before.byteLength (report.blocks + 1))

def splice (report : Report) (span : Span) (rendering : Rendering) : Report :=
  let heard := (rendering.asked.map Event.asked).foldl emit report
  match rendering.result with
  | .ok html =>
      { heard with
        content := span.splice html
        blocks := report.blocks + 1 }.emit (.replaced (report.blocks + 1))
  | .error fault =>
      { heard with
        content := span.splice []
        blocks := report.blocks + 1
        skipped := report.skipped + 1 }.emit (.dropped span.before.byteLength (report.blocks + 1) fault)

def finish (report : Report) : Report :=
  report.emit (.finished report.blocks)

end Report

inductive Round
  | over (report : Report)
  | again (report : Report)
deriving DecidableEq, Repr

namespace Highlighter

def round (highlighter : Highlighter) (earlier : Nat) (family : Family) (report : Report) : Round :=
  match family.locate report.content with
  | .clear => .over report
  | .unclosed opening => .over (report.unterminated opening)
  | .closed span =>
      .again (report.splice span (highlighter.rendering (earlier + report.requests.length) family (span.raw family)))

-- A pass of at most `bound` rounds, or nothing if they are not enough.
def pass (highlighter : Highlighter) (earlier : Nat) (family : Family) : (bound : Nat) → Report → Option Report
  | 0, _ => none
  | bound + 1, report =>
      match highlighter.round earlier family report with
      | .over final => some final
      | .again next => highlighter.pass earlier family bound next

def passes (highlighter : Highlighter) (earlier bound : Nat) : List Family → Report → Option Report
  | [], report => some report.finish
  | family :: rest, report =>
      (highlighter.pass earlier family bound report).bind fun next =>
        if next.abortedAt.isSome then some next else highlighter.passes earlier bound rest next

end Highlighter
end CodeFence
