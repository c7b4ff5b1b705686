import DbSchema.Syntax.Block

/-!
# Reading a whole schema

`Schema.parseSyntax s` reads every block of the text `s` and collects the syntax errors instead
of stopping at the first one. At the top level:

* an `illegal` token is skipped silently;
* a keyword starts a block; a block with an error is dropped as a whole, its error is kept, and
  reading resumes after what is left of the block (`Parser.recover`);
* any other token is reported as unexpected and skipped.
-/

namespace DbSchema

namespace Parser

/-- Skips what is left of a broken block, given the brace count `base` at its start. It stops
at the end of the text, at a keyword while no more braces are open than at the start, and
after a `}` that brings the count back to the start. -/
def recover (base : Nat) (c : Cursor) : Cursor :=
  if c.kind = .eof then c
  else if c.kind.isKeyword ∧ c.depth ≤ base then c
  else
    let c1 := c.advance
    if c.kind = .rBrace ∧ c1.depth ≤ base then c1
    else if c1.remaining < c.remaining then recover base c1
    else c1
termination_by c.remaining

/-- Reads the blocks from the cursor `c` to the end of the text, adding them to `s` and their
errors to `errs` (last first). -/
def blocks (s : Schema) (errs : List SyntaxError) (c : Cursor) : Schema × List SyntaxError :=
  let base := c.depth
  if c.kind = .eof then (s, errs.reverse)
  else if c.kind = .illegal then
    let c1 := c.advance
    if c1.remaining < c.remaining then blocks s errs c1 else (s, errs.reverse)
  else if c.kind.isKeyword then
    match block c with
    | .ok b c1 =>
      if c1.remaining < c.remaining then blocks (s.push b) errs c1
      else (s.push b, errs.reverse)
    | .error e c1 =>
      let c2 := recover base c1
      -- the block read its keyword at least, so the text got shorter
      if c2.remaining < c.remaining then blocks s (e :: errs) c2
      else (s, (e :: errs).reverse)
  else
    let c1 := c.advance
    if c1.remaining < c.remaining then blocks s (c.unexpected :: errs) c1
    else (s, (c.unexpected :: errs).reverse)
termination_by c.remaining

end Parser

namespace Schema

/-- The blocks of a text and its syntax errors, in the order of the text. -/
def parseSyntax (src : String) : Schema × List SyntaxError :=
  Parser.blocks {} [] (Cursor.ofText src)

end Schema

end DbSchema
