import Mathlib.Computability.RegularExpressions

/-! # Anchored patterns

Patterns as they are published for fields that are tested while they are typed: characters, classes
of characters and of ranges, groups, `*` and `?`. A pattern is read into a regular expression, which
has to match the whole of a text; other metacharacters are refused.
-/

namespace Pattern

/-! ## Classes -/

/-- The characters from one to another. -/
def range (first last : Char) : List Char :=
  ((List.range' first.toNat (last.toNat + 1 - first.toNat)).map Char.ofNat).filter fun c => first ≤ c ∧ c ≤ last

def oneOf (chars : List Char) : RegularExpression Char := (chars.map RegularExpression.char).sum

def optional (p : RegularExpression Char) : RegularExpression Char := p + 1

theorem mem_range {first last c : Char} : c ∈ range first last ↔ first ≤ c ∧ c ≤ last := by
  rw [range, List.mem_filter, decide_eq_true_iff, and_iff_right_iff_imp]
  rintro ⟨above, below⟩
  have above : first.toNat ≤ c.toNat := UInt32.le_iff_toNat_le.mp above
  have below : c.toNat ≤ last.toNat := UInt32.le_iff_toNat_le.mp below
  refine List.mem_map.mpr ⟨c.toNat, ?_, Char.ofNat_toNat c⟩
  rw [List.mem_range'_1]
  omega

theorem mem_oneOf {chars word : List Char} : word ∈ (oneOf chars).matches' ↔ ∃ c ∈ chars, word = [c] := by
  induction chars with
  | nil =>
    constructor
    · intro none
      exact absurd none (Language.notMem_zero word)
    · rintro ⟨c, member, -⟩
      exact absurd member List.not_mem_nil
  | cons c rest ih =>
    simp only [List.mem_cons, exists_eq_or_imp]
    rw [← ih, oneOf, List.map_cons, List.sum_cons, RegularExpression.matches'_add, Language.mem_add]
    rfl

/-- Any number of characters of a class. -/
theorem mem_star_oneOf {chars word : List Char} :
    word ∈ (oneOf chars).star.matches' ↔ ∀ c ∈ word, c ∈ chars := by
  rw [RegularExpression.matches'_star, Language.mem_kstar]
  constructor
  · rintro ⟨pieces, rfl, every⟩ c member
    obtain ⟨piece, listed, member⟩ := List.mem_flatten.mp member
    obtain ⟨d, inside, rfl⟩ := mem_oneOf.mp (every piece listed)
    rwa [List.mem_singleton.mp member]
  · intro inside
    refine ⟨word.map fun c => [c], ?_, ?_⟩
    · rw [← List.flatMap_def, List.flatMap_singleton']
    · rw [List.forall_mem_map]
      exact fun c member => mem_oneOf.mpr ⟨c, inside c member, rfl⟩

theorem mem_optional {p : RegularExpression Char} {word : List Char} :
    word ∈ (optional p).matches' ↔ word ∈ p.matches' ∨ word = [] := by
  rw [optional, RegularExpression.matches'_add, Language.mem_add, RegularExpression.matches'_epsilon,
    Language.mem_one]

/-- The shape of a label: characters of one class, of which the outermost are of a smaller one. -/
theorem mem_label {ends inner word : List Char} (smaller : ends ⊆ inner) :
    word ∈ (oneOf ends * optional ((oneOf inner).star * oneOf ends)).matches' ↔
      (∀ c ∈ word, c ∈ inner) ∧ (∃ c ∈ word.head?, c ∈ ends) ∧ ∃ c ∈ word.getLast?, c ∈ ends := by
  rw [RegularExpression.matches'_mul, Language.mem_mul]
  constructor
  · rintro ⟨_, first, rest, tail, rfl⟩
    obtain ⟨c, begins, rfl⟩ := mem_oneOf.mp first
    obtain more | rfl := mem_optional.mp tail
    · rw [RegularExpression.matches'_mul, Language.mem_mul] at more
      obtain ⟨middle, inside, _, last, rfl⟩ := more
      obtain ⟨d, closes, rfl⟩ := mem_oneOf.mp last
      have inside := mem_star_oneOf.mp inside
      refine ⟨?_, ⟨c, rfl, begins⟩, d, @List.getLast?_concat _ (c :: middle) d, closes⟩
      simp only [List.singleton_append, List.mem_cons, List.mem_append, List.not_mem_nil, or_false]
      rintro e (rfl | member | rfl)
      · exact smaller begins
      · exact inside e member
      · exact smaller closes
    · refine ⟨?_, ⟨c, rfl, begins⟩, c, rfl, begins⟩
      simpa using smaller begins
  · rintro ⟨inside, ⟨c, front, begins⟩, d, back, closes⟩
    obtain ⟨rest, rfl⟩ := List.head?_eq_some_iff.mp front
    refine ⟨[c], mem_oneOf.mpr ⟨c, begins, rfl⟩, rest, mem_optional.mpr ?_, rfl⟩
    obtain rfl | ⟨middle, last, rfl⟩ := List.eq_nil_or_concat' rest
    · exact .inr rfl
    · obtain rfl := Option.some.inj ((@List.getLast?_concat _ (c :: middle) last).symm.trans back)
      refine .inl ?_
      rw [RegularExpression.matches'_mul, Language.mem_mul]
      refine ⟨middle, mem_star_oneOf.mpr fun e member => inside e ?_, [last], mem_oneOf.mpr ⟨last, closes, rfl⟩, by simp⟩
      simp [member]

/-! ## Reading a pattern -/

/-- A class up to some point: the last character may still begin a range, and does after a hyphen. -/
structure Class where
  chars : List Char := []
  pending : Option Char := none
  hyphen : Bool := false

/-- A hyphen that nothing follows stands for itself. -/
def Class.close (k : Class) : List Char := k.chars ++ k.pending.toList ++ if k.hyphen then ['-'] else []

def Class.step (k : Class) (c : Char) : Option Class :=
  if c ∈ ['[', '^', '\\'] then none
  else
    match k.pending with
    | none => some { k with pending := some c }
    | some first =>
      if k.hyphen then if first ≤ c then some { chars := k.chars ++ range first c } else none
      else if c = '-' then some { k with hyphen := true }
      else some { chars := k.chars ++ [first], pending := some c }

/-- One expression after another, from the last back. -/
def sequence : List (RegularExpression Char) → RegularExpression Char
  | [] => 1
  | last :: before => before.foldl (fun rest atom => atom * rest) last

/-- A pattern up to some point: the atoms of the groups that are open, each from the last back, and the
class that is open. -/
structure Reading where
  outer : List (List (RegularExpression Char)) := []
  atoms : List (RegularExpression Char) := []
  bracket : Option Class := none

def Reading.step (r : Reading) (c : Char) : Option Reading :=
  match r.bracket with
  | some k =>
    if c = ']' then some { r with atoms := oneOf k.close :: r.atoms, bracket := none }
    else (k.step c).map fun k => { r with bracket := some k }
  | none =>
    match c, r.outer, r.atoms with
    | '[', _, _ => some { r with bracket := some {} }
    | '(', outer, atoms => some { outer := atoms :: outer }
    | ')', enclosing :: outer, atoms => some { outer, atoms := sequence atoms :: enclosing }
    | '*', outer, last :: before => some { outer, atoms := last.star :: before }
    | '?', outer, last :: before => some { outer, atoms := optional last :: before }
    | c, outer, atoms =>
      if c ∈ [')', '*', '?', ']', '^', '$', '.', '\\', '|', '+', '{', '}'] then none
      else some { outer, atoms := .char c :: atoms }

def Reading.finish (r : Reading) : Option (RegularExpression Char) :=
  if r.outer.isEmpty && r.bracket.isNone then some (sequence r.atoms) else none

def parse (pattern : String) : Option (RegularExpression Char) :=
  (pattern.toList.foldlM Reading.step {}).bind Reading.finish

/-- The pattern matches the whole of the text. -/
def Matches (pattern text : String) : Prop := ∃ p, parse pattern = some p ∧ text.toList ∈ p.matches'

instance (pattern text : String) : Decidable (Matches pattern text) :=
  match equation : parse pattern with
  | none => .isFalse fun ⟨_, parsed, _⟩ => nomatch equation.symm.trans parsed
  | some p => decidable_of_iff (text.toList ∈ p.matches')
      ⟨fun member => ⟨p, equation, member⟩, fun ⟨_, parsed, member⟩ =>
        Option.some.inj (equation.symm.trans parsed) ▸ member⟩

theorem matches_of_parse {pattern : String} {p : RegularExpression Char} (parsed : parse pattern = some p)
    (text : String) : Matches pattern text ↔ text.toList ∈ p.matches' := by
  constructor
  · rintro ⟨q, same, member⟩
    obtain rfl := Option.some.inj (parsed.symm.trans same)
    exact member
  · exact fun member => ⟨p, parsed, member⟩

end Pattern
