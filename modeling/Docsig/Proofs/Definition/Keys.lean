import Docsig.Proofs.Code.Environment
import Docsig.Proofs.Definition.CommentBlock
import Docsig.Proofs.Definition.WellFormed

/-!
The keys of a definition.

They are the variables that the entry function mentions anywhere: those that its body reads, and
with them those that the body assigns or deletes, and those that stand in a decorator or in the
signature (`parse_keys`). The body need not read the others, as `parse_keys_unread` shows.
-/

namespace Docsig.Definition

open Code (Reads Stores Mentions)

variable {charge : Int} {pathname : String} {contents : Contents} {d : Definition}

def IsEntry (contents : Contents) (f : Code.Function) : Prop :=
  ∃ cs ss, contents.decode = .ok cs ∧ statements cs = .ok ss ∧ entryFunction ss = .ok f

/-- The keys of a definition are the names that its entry function mentions. -/
theorem parse_mentions (parsed : parse charge pathname contents = .ok d) :
    ∃ f, IsEntry contents f ∧ ∀ name, name ∈ d.keys ↔ Mentions [.function f] name := by
  obtain ⟨parts, ps, found, -, rfl⟩ := parse_ok parsed
  obtain ⟨cs, ss, decoded, hss, entry, -⟩ := readParts_ok found
  exact ⟨parts.function, ⟨cs, ss, decoded, hss, entry⟩,
    fun _ => Code.Function.mem_environmentKeys⟩

/-- A function mentions a variable where its body reads or stores it, or in front of its body. -/
theorem mentions_function_iff {f : Code.Function} {name : String} :
    Mentions [.function f] name ↔
      Reads f.body name ∨ Stores f.body name ∨ Mentions f.head name := by
  rw [Code.mentions_function, Code.mentions_append, @Code.mentions_iff _ f.body, or_comm,
    or_assoc]

/-- **The keys of a definition.** A name is one of them exactly if the body of the entry function
reads that variable, or assigns or deletes it, or a decorator or the signature mentions it. So the
body reads all of them exactly if it reads what it stores and what stands in front of it. -/
theorem parse_keys (parsed : parse charge pathname contents = .ok d) :
    ∃ f, IsEntry contents f ∧
      (∀ name, name ∈ d.keys ↔
        Reads f.body name ∨ Stores f.body name ∨ Mentions f.head name) ∧
      ((∀ name ∈ d.keys, Reads f.body name) ↔
        ∀ name, Stores f.body name ∨ Mentions f.head name → Reads f.body name) := by
  obtain ⟨f, entry, mentioned⟩ := parse_mentions parsed
  have keys : ∀ name, name ∈ d.keys ↔
      Reads f.body name ∨ Stores f.body name ∨ Mentions f.head name := by
    intro name
    rw [mentioned, mentions_function_iff]
  refine ⟨f, entry, keys, ?_⟩
  constructor
  · intro all name other
    exact all name ((keys name).mpr (.inr other))
  · intro all name key
    rcases (keys name).mp key with read | other
    · exact read
    · exact all name other

/-! ### A source -/

/-- A source that reads two variables in its body, of which it changes one, stores two others,
and mentions one in a decorator and one in an annotation. -/
def storing : String :=
  "import os\n@retry(os.environ['RETRY'])\ndef run(context: os.environ['TYPE']):\n" ++
    "    os.environ['SET'] = os.getenv('READ')\n    del os.environ['GONE']\n" ++
    "    os.environ['GROWN'] += '1'\n"

/-- Its entry function mentions six names, and the body reads two of them. -/
theorem storing_entry {f : Code.Function} (entry : IsEntry (.text storing) f) :
    (∀ name ∈ ["RETRY", "TYPE", "SET", "READ", "GONE", "GROWN"], Mentions [.function f] name) ∧
      Reads f.body "READ" ∧ Reads f.body "GROWN" ∧
      ∀ name ∈ ["RETRY", "TYPE", "SET", "GONE"], ¬ Reads f.body name := by
  obtain ⟨cs, ss, decoded, hss, hf⟩ := entry
  obtain rfl : storing.toList = cs := Except.ok.inj decoded
  have facts : ((statements storing.toList >>= entryFunction).map fun f =>
      decide ((∀ name ∈ ["RETRY", "TYPE", "SET", "READ", "GONE", "GROWN"],
        Mentions [.function f] name) ∧ Reads f.body "READ" ∧ Reads f.body "GROWN" ∧
        ∀ name ∈ ["RETRY", "TYPE", "SET", "GONE"], ¬ Reads f.body name)).toOption =
      some true := by
    decide +kernel
  rw [hss, ok_bind, hf] at facts
  exact of_decide_eq_true (Option.some.inj facts)

theorem exists_storing : ∃ d, parse 1 "f.py" (.text storing) = .ok d := by
  have parses : (parse 1 "f.py" (.text storing)).isOk = true := by decide +kernel
  exact exists_of_isOk parses

theorem parse_keys_storing : ∃ d f, parse 1 "f.py" (.text storing) = .ok d ∧
    IsEntry (.text storing) f ∧ "READ" ∈ d.keys ∧ "GROWN" ∈ d.keys ∧
    ¬ ∀ name, Stores f.body name ∨ Mentions f.head name → Reads f.body name := by
  obtain ⟨d, parsed⟩ := exists_storing
  obtain ⟨f, entry, keys, all⟩ := parse_keys parsed
  obtain ⟨mentioned, read, grown, unread⟩ := storing_entry entry
  refine ⟨d, f, parsed, entry, (keys _).mpr (.inl read), (keys _).mpr (.inl grown), ?_⟩
  intro other
  refine unread "SET" (by decide) (all.mpr other "SET" ?_)
  exact (keys _).mpr (mentions_function_iff.mp (mentioned "SET" (by decide)))

/-- A variable in a decorator, one in an annotation, one that is assigned and one that is deleted
are keys, and the body reads none of them. -/
theorem parse_keys_unread : ∃ d f, parse 1 "f.py" (.text storing) = .ok d ∧
    IsEntry (.text storing) f ∧
    ∀ name ∈ ["RETRY", "TYPE", "SET", "GONE"], name ∈ d.keys ∧ ¬ Reads f.body name := by
  obtain ⟨d, parsed⟩ := exists_storing
  obtain ⟨f, entry, keys⟩ := parse_mentions parsed
  obtain ⟨mentioned, -, -, unread⟩ := storing_entry entry
  refine ⟨d, f, parsed, entry, fun name member => ⟨(keys name).mpr (mentioned name ?_), ?_⟩⟩
  · revert name
    decide
  · exact unread name member

end Docsig.Definition
