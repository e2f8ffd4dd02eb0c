import VariadicGenerics.TypeTable

/-!
# Dialogues with a type table

The sites of a batch may be checked at the same time, over one type table. Whoever works on a shared
table never has it in hand: they ask one question after another, and between two questions the
others may have put anything into the table. What they do is then a tree, a dialogue: it is an
answer, or a question together with the dialogue that follows for every reply.

A question is served at once and as a whole, so that a run of several dialogues is known when the
order of their questions is. `run` is the run of a single dialogue, with the table to itself.

The tree is what makes statements about concurrent sites possible. A dialogue is fixed before the
run; the replies pick a path through it. To say what a site answers under every schedule is to say
what holds at the end of every path that a growing table can pick, and induction on the tree shows
it, without a word about the other sites. `Proofs.Dialogues` has the rules for this, one for each
way to build a dialogue.

## Main results

* `Dialogue.run_bind`: a dialogue that goes on after another one.
-/

namespace VariadicGenerics

/-- What can be asked of a type table. -/
inductive Question where
  /-- What has this number? -/
  | lookup (id : TypeId)
  /-- Which list has this number? -/
  | list (id : TypeListId)
  /-- Which number has this entry? It joins the table if it is new. -/
  | intern (entry : TypeEntry)
  /-- Which number has this list? It joins the table if it is new. -/
  | internList (ids : List TypeId)
  deriving Repr

/-- The replies to a question. -/
def Question.Reply : Question → Type
  | lookup _ => Option TypeEntry
  | list _ => List TypeId
  | intern _ => TypeId
  | internList _ => TypeListId

/-- The reply of a table, and the table afterwards. -/
def TypeTable.reply (t : TypeTable) : (q : Question) → q.Reply × TypeTable
  | .lookup id => (t.lookup id, t)
  | .list id => (t.list id, t)
  | .intern entry => t.intern entry
  | .internList ids => t.internList ids

/-- A computation that knows a type table only by the replies to its questions. -/
inductive Dialogue (α : Type) : Type where
  /-- Nothing more to ask. -/
  | answer (a : α)
  /-- A question, and what follows a reply. -/
  | ask (q : Question) (next : q.Reply → Dialogue α)

namespace Dialogue

variable {α β : Type}

/-- Go on with what was answered. -/
def andThen : Dialogue α → (α → Dialogue β) → Dialogue β
  | answer a, f => f a
  | ask q next, f => ask q fun reply => (next reply).andThen f

instance : Monad Dialogue where
  pure := answer
  bind := andThen

instance : LawfulMonad Dialogue := LawfulMonad.mk' _
  (fun x => by
    change andThen x answer = x
    induction x with
    | answer a => rfl
    | ask q next ih => exact congrArg (ask q) (funext ih))
  (fun _ _ => rfl)
  (fun x f g => by
    change andThen (andThen x f) g = andThen x fun a => andThen (f a) g
    induction x with
    | answer a => rfl
    | ask q next ih => exact congrArg (ask q) (funext ih))

/-- The answer of a dialogue that has ended. -/
def answer? : Dialogue α → Option α
  | answer a => some a
  | ask .. => none

/-- One question of a dialogue to a table. A dialogue that has ended asks nothing. -/
def step (t : TypeTable) : Dialogue α → Dialogue α × TypeTable
  | answer a => (answer a, t)
  | ask q next => (next (t.reply q).1, (t.reply q).2)

/-- The whole of a dialogue with a table that nobody else uses. -/
def run (t : TypeTable) : Dialogue α → α × TypeTable
  | answer a => (a, t)
  | ask q next => (next (t.reply q).1).run (t.reply q).2

/-- Alone with a table, a dialogue goes on from where the first part of it left the table. -/
theorem run_bind (t : TypeTable) (x : Dialogue α) (f : α → Dialogue β) :
    (x >>= f).run t = (f (x.run t).1).run (x.run t).2 := by
  change (x.andThen f).run t = _
  induction x generalizing t with
  | answer a => rfl
  | ask q next ih => exact ih (t.reply q).1 (t.reply q).2

/-! ### Single questions -/

/-- The entry of a number. -/
def lookup (id : TypeId) : Dialogue (Option TypeEntry) := ask (.lookup id) answer

/-- The list of a number. -/
def list (id : TypeListId) : Dialogue (List TypeId) := ask (.list id) answer

/-- The number of an entry. -/
def intern (entry : TypeEntry) : Dialogue TypeId := ask (.intern entry) answer

/-- The number of a list. -/
def internList (ids : List TypeId) : Dialogue TypeListId := ask (.internList ids) answer

end Dialogue

/-- A dialogue that may fail. -/
abbrev Checked (ε : Type) := ExceptT ε Dialogue

end VariadicGenerics
