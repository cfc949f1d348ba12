import StyleBatch.Proofs.Acyclic

/-!
# Inlining by recursion

What the text of a location is when nothing is shared and nothing runs at the same time:
`Library.inline` fetches the location, finds its imports in their order, inlines each of them by
the same rule and puts the texts in the place of the directives.  The first fault ends it.  On a
cycle it has no result.

* `Library.inline_eq`: the recursion, with `Library.inlineSource` for the part that loads share.
* `Library.run_inlineSource`: the result from the results of the imports.
-/

namespace StyleBatch.Library

variable (lib : Library)

/-- An answer that is there at once. -/
def given {α : Type} (answer : Except Fault α) : ExceptT Fault Option α :=
  ExceptT.mk (some answer)

/-- The text of a location with its imports inlined; nothing, if that has no end. -/
def inline (l : Location) : ExceptT Fault Option Text := do
  let raw ← given (lib.fetch l)
  let is ← given (lib.imports l.text raw)
  -- By `apply`: a partial fixpoint keeps the position in the file of a call written as a term.
  let texts ← is.mapM fun i => given (lib.find (lib.base l.text) i.file) >>= by apply inline
  return Resolution.fill raw (Directive.scan raw) texts
partial_fixpoint

/-- The text of an import of a source. -/
def inlineImport (address : Text) (i : Import) : ExceptT Fault Option Text := do
  lib.inline (← given (lib.find (lib.base address) i.file))

/-- A source with its imports inlined. -/
def inlineSource (address source : Text) : ExceptT Fault Option Text := do
  let is ← given (lib.imports address source)
  let texts ← is.mapM (lib.inlineImport address)
  return Resolution.fill source (Directive.scan source) texts

variable {lib}

theorem inline_eq (l : Location) :
    lib.inline l = given (lib.fetch l) >>= fun raw => lib.inlineSource l.text raw := by
  rw [inline]
  rfl

theorem run_given_bind_ok {α β : Type} {a : α} {answer : Except Fault α} (h : answer = .ok a)
    (f : α → ExceptT Fault Option β) : (given answer >>= f).run = (f a).run := by
  subst h
  rfl

theorem run_given_bind_error {α β : Type} {fault : Fault} {answer : Except Fault α}
    (h : answer = .error fault) (f : α → ExceptT Fault Option β) :
    (given answer >>= f).run = some (.error fault) := by
  subst h
  rfl

/-- What ends one by one ends in a row, with the first fault. -/
theorem run_mapM {α β : Type} {f : α → ExceptT Fault Option β} {xs : List α}
    {os : List (Except Fault β)} (h : List.Forall₂ (fun x o => (f x).run = some o) xs os) :
    (xs.mapM f).run = some (os.mapM id) := by
  induction h with
  | nil => rfl
  | @cons x o xs os hx _ ih =>
    rw [List.mapM_cons, List.mapM_cons, ExceptT.run_bind, hx]
    cases o with
    | error fault => rfl
    | ok y =>
      simp only [Option.bind_eq_bind, Option.bind_some, ExceptT.run_bind, ih]
      cases os.mapM id <;> rfl

/-- The result of a source from the results of its imports. -/
theorem run_inlineSource {address source : Text} {is : List Import} {os : List Outcome}
    (himports : lib.imports address source = .ok is)
    (hos : List.Forall₂ (fun i o => (lib.inlineImport address i).run = some o) is os) :
    (lib.inlineSource address source).run =
      some ((os.mapM id).map (Resolution.fill source (Directive.scan source))) := by
  rw [inlineSource, run_given_bind_ok himports, ExceptT.run_bind, run_mapM hos]
  cases os.mapM id <;> rfl

end StyleBatch.Library
