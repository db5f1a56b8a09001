import Netd.Math.Letters
import Netd.Math.Pattern
import Netd.Model.Hostname
import Netd.Model.Registry
import Netd.Proofs.Text.Utf8

/-! # The rule for names and its published pattern

The function that checks a name and the pattern that a surface tests what is typed against say the same of
every text. A name that passes passes again, so it comes back from the registry as it was, and is what is
set and announced.
-/

namespace Netd.Model.Hostname

open Pattern (Matches mem_label mem_range oneOf range)

/-! ## The pattern -/

/-- The class of the pattern's outermost characters. -/
def letters : List Char := range 'A' 'Z' ++ range 'a' 'z' ++ range '0' '9'

theorem mem_letters {c : Char} : c ∈ letters ↔ c.isAlphanum = true := by
  delta Char.isAlphanum Char.isAlpha Char.isUpper Char.isLower Char.isDigit
  simp only [letters, List.mem_append, mem_range, Bool.or_eq_true, decide_eq_true_eq, Bool.and_eq_true]
  rfl

theorem foreign_eq_false {c : Char} : foreign c = false ↔ c ∈ letters ++ ['-'] := by
  rw [List.mem_append, mem_letters, List.mem_singleton, foreign]
  by_cases letter : c.isAlphanum <;> simp [letter]

theorem parse_pattern : Pattern.parse pattern =
    some (oneOf letters * Pattern.optional ((oneOf (letters ++ ['-'])).star * oneOf letters)) := by
  have chars : pattern.toList =
      ['[', 'A', '-', 'Z', 'a', '-', 'z', '0', '-', '9', ']', '(', '[', 'A', '-', 'Z', 'a', '-', 'z', '0', '-', '9', '-',
        ']', '*', '[', 'A', '-', 'Z', 'a', '-', 'z', '0', '-', '9', ']', ')', '?'] := by decide +kernel
  rw [Pattern.parse, chars]
  rfl

/-- What the pattern asks of a name. -/
theorem matches_iff (name : String) : Matches pattern name ↔ (∀ c ∈ name.toList, foreign c = false) ∧
    (∃ c ∈ name.toList.head?, c.isAlphanum = true) ∧ ∃ c ∈ name.toList.getLast?, c.isAlphanum = true := by
  rw [Pattern.matches_of_parse parse_pattern, mem_label (List.subset_append_left letters ['-'])]
  simp only [foreign_eq_false, mem_letters]

/-! ## The check -/

/-- The name in small letters, in any case of them. -/
def Localhost (name : String) : Prop :=
  List.Forall₂ (fun c d => c = d ∨ c = d.toUpper) name.toList ['l', 'o', 'c', 'a', 'l', 'h', 'o', 's', 't']

theorem localhost_iff (name : String) : eqIgnoreAsciiCase name "localhost" = true ↔ Localhost name := by
  have small : ∀ d ∈ ['l', 'o', 'c', 'a', 'l', 'h', 'o', 's', 't'], 97 ≤ d.toNat ∧ d.toNat ≤ 122 := by
    simp
  have chars : (toAsciiLowercase "localhost").toList = ['l', 'o', 'c', 'a', 'l', 'h', 'o', 's', 't'] := by
    decide +kernel
  rw [eqIgnoreAsciiCase, beq_iff_eq, ← String.toList_inj, chars, toAsciiLowercase, String.toList_map,
    Letters.map_toLower_eq_iff small, Localhost]

/-- Letters, digits and the hyphen lie between the hyphen and the last small letter. -/
theorem bounds_of_foreign {c : Char} (plain : foreign c = false) : 45 ≤ c.toNat ∧ c.toNat ≤ 122 := by
  have same : c.toNat = c.val.toNat := rfl
  simp only [foreign_eq_false, List.mem_append, List.mem_singleton, letters, mem_range, Char.le_def,
    UInt32.le_iff_toNat_le] at plain
  obtain ((⟨first, last⟩ | ⟨first, last⟩) | ⟨first, last⟩) | rfl := plain
  · change 65 ≤ _ at first
    change _ ≤ 90 at last
    omega
  · change 97 ≤ _ at first
    change _ ≤ 122 at last
    omega
  · change 48 ≤ _ at first
    change _ ≤ 57 at last
    omega
  · decide

/-- A name without foreign characters has one octet for each of them. -/
theorem utf8ByteSize_of_plain {name : String} (plain : ∀ c ∈ name.toList, foreign c = false) :
    name.utf8ByteSize = name.length := by
  have one : name.toList.map Char.utf8Size = name.toList.map fun _ => 1 := by
    apply List.map_congr_left
    intro c member
    have bounds := (bounds_of_foreign (plain c member)).2
    rw [Char.utf8Size_eq_one_iff, UInt32.le_iff_toNat_le]
    change c.toNat ≤ 127
    omega
  rw [utf8ByteSize_eq, one, ← String.length_toList]
  simp

theorem trim_of_plain {name : String} (plain : ∀ c ∈ name.toList, foreign c = false) : trim name = name := by
  have kept {text : List Char} (plain : ∀ c ∈ text, foreign c = false) : text.dropWhile isWhitespace = text := by
    cases text with
    | nil => rfl
    | cons c rest =>
      have bounds := bounds_of_foreign (plain c List.mem_cons_self)
      have visible : isWhitespace c = false := by
        rw [Bool.eq_false_iff]
        simp only [isWhitespace, ne_eq, Bool.or_eq_true, Bool.and_eq_true, decide_eq_true_eq, beq_iff_eq]
        omega
      rw [List.dropWhile_cons_of_neg (Bool.eq_false_iff.mp visible)]
  rw [trim, kept plain, kept fun c member => plain c (List.mem_reverse.mp member), List.reverse_reverse,
    String.ofList_toList]

/-- What the check asks of a name, test after test. -/
theorem check_eq_ok_iff (answered name : String) : check answered = .ok name ↔
    name = trim answered ∧ name.isEmpty = false ∧ (∀ c ∈ name.toList, foreign c = false) ∧ name.utf8ByteSize ≤ max ∧
      name.toList.head? ≠ some '-' ∧ name.toList.getLast? ≠ some '-' ∧ ¬Localhost name := by
  rw [check]
  generalize trim answered = text
  constructor
  · intro accepted
    cases found : text.toList.find? foreign with
    | some c =>
      rw [found] at accepted
      split_ifs at accepted
    | none =>
      rw [found] at accepted
      dsimp only at accepted
      split_ifs at accepted with empty long hyphen own
      obtain rfl := Except.ok.inj accepted
      refine ⟨rfl, Bool.eq_false_iff.mpr empty, ?_, not_lt.mp long, ?_, ?_, ?_⟩
      · intro c member
        exact Bool.eq_false_iff.mpr (List.find?_eq_none.mp found c member)
      · exact fun front => hyphen (.inl front)
      · exact fun back => hyphen (.inr back)
      · exact fun localhost => own ((localhost_iff text).mpr localhost)
  · rintro ⟨rfl, nonempty, plain, short, front, back, own⟩
    have none : name.toList.find? foreign = none := by
      rw [List.find?_eq_none]
      exact fun c member => Bool.eq_false_iff.mp (plain c member)
    have hyphen : ¬(name.toList.head? = some '-' ∨ name.toList.getLast? = some '-') := not_or.mpr ⟨front, back⟩
    rw [if_neg (Bool.eq_false_iff.mp nonempty), none]
    dsimp only
    rw [if_neg (not_lt.mpr short), if_neg hyphen, if_neg fun same => own ((localhost_iff name).mp same)]

/-- Among the characters of a name, those that are no hyphen are letters and digits. -/
theorem alphanum_iff {end? : Option Char} (plain : ∀ c ∈ end?, foreign c = false) :
    (∃ c ∈ end?, c.isAlphanum = true) ↔ end? ≠ none ∧ end? ≠ some '-' := by
  cases end? with
  | none => simp
  | some c =>
    have letter := plain c rfl
    by_cases hyphen : c = '-'
    · simp [hyphen]
    · simpa [foreign, hyphen] using letter

/-- The check passes exactly what the pattern matches, up to the length and the one name that is taken. -/
theorem check_iff_matches (answered name : String) : check answered = .ok name ↔
    name = trim answered ∧ Matches pattern name ∧ name.length ≤ max ∧ ¬Localhost name := by
  rw [check_eq_ok_iff, matches_iff]
  refine and_congr_right fun _ => ?_
  by_cases plain : ∀ c ∈ name.toList, foreign c = false
  · have front : ∀ c ∈ name.toList.head?, foreign c = false := fun c first => plain c (List.mem_of_mem_head? first)
    have back : ∀ c ∈ name.toList.getLast?, foreign c = false := fun c last => plain c (List.mem_of_mem_getLast? last)
    have empty : name.isEmpty = false ↔ name.toList ≠ [] := by
      rw [Bool.eq_false_iff, ne_eq, String.isEmpty_iff, ne_eq, String.toList_eq_nil_iff]
    rw [utf8ByteSize_of_plain plain, alphanum_iff front, alphanum_iff back, empty]
    simp only [ne_eq, List.head?_eq_none_iff, List.getLast?_eq_none_iff]
    tauto
  · tauto

example : check "a_b" = .error "A machine's name is letters, digits and hyphens; “_” is not one of them." := by
  decide +kernel

/-- A name that passed passes as it is. -/
theorem check_check {answered name : String} (passed : check answered = .ok name) : check name = .ok name := by
  obtain ⟨-, rest⟩ := (check_eq_ok_iff answered name).mp passed
  exact (check_eq_ok_iff name name).mpr ⟨(trim_of_plain rest.2.1).symm, rest⟩

/-! ## Written to the registry and read back -/

theorem asBytes_ne_zero {name : String} (plain : ∀ c ∈ name.toList, foreign c = false) :
    ∀ octet ∈ asBytes name, octet ≠ 0 := by
  intro octet member
  rw [asBytes_eq] at member
  obtain ⟨c, inside, spelled⟩ := List.mem_flatMap.mp member
  have bounds := bounds_of_foreign (plain c inside)
  rw [charOctets_one (by omega), List.mem_singleton] at spelled
  rintro rfl
  have value := toNat_octet (show c.toNat < 256 by omega)
  rw [← spelled] at value
  change 0 = c.toNat at value
  omega

/-- A text's own octets, with or without a zero octet behind them, are read as the text. -/
theorem sz_of_plain {name : String} (plain : ∀ c ∈ name.toList, foreign c = false) {value : Registry.RegValue}
    (type : value.ty = .sz ∨ value.ty = .expandSz) {tail : Bytes} (written : value.data = asBytes name ++ tail)
    (ends : tail = [] ∨ tail.head? = some 0) : Registry.sz value = .ok name := by
  have text : ¬(value.ty ≠ .sz ∧ value.ty ≠ .expandSz) := by tauto
  have stops : tail.takeWhile (fun octet => octet != 0) = [] := by
    obtain rfl | zero := ends
    · rfl
    · obtain ⟨rest, rfl⟩ := List.head?_eq_some_iff.mp zero
      rfl
  have whole : Registry.untilNul value.data = asBytes name := by
    rw [Registry.untilNul, written, List.takeWhile_append_of_pos, stops, List.append_nil]
    intro octet member
    simpa using asBytes_ne_zero plain octet member
  rw [Registry.sz, if_neg text, whole, Registry.text, fromUtf8_asBytes]

/-- A name that netd reads from the registry as it was written there, and takes as it is. -/
structure Kept (name : String) : Prop where
  checked : check name = .ok name
  read : ∀ (κ : Type) (reader : Registry.Reader κ) (root : κ) (value : Registry.RegValue) (tail : Bytes),
    reader.value root "Hostname" = .ok (some value) → value.ty = .sz ∨ value.ty = .expandSz →
      value.data = asBytes name ++ tail → tail = [] ∨ tail.head? = some 0 →
        Registry.readSz reader root "Hostname" = .ok (some name)
  announced : announced (some name) = some name
  applied : ∀ (n : Naming) (a : Application), a.config = some name →
    (machine.next n a).refused = none ∧ (a.taken = true → (machine.next n a).set = some name) ∧
      (n.set ≠ some name → machine.output n a = some name)

theorem kept_of_check {answered name : String} (passed : check answered = .ok name) : Kept name where
  checked := check_check passed
  read κ reader root value tail stored type written ends := by
    obtain ⟨-, nonempty, plain, -⟩ := (check_eq_ok_iff answered name).mp passed
    have mapped : (some value).mapM Registry.sz = .ok (some name) := by
      rw [Option.mapM_some, sz_of_plain plain type written ends]
      rfl
    have filtered : (some name).filter (fun value => !value.isEmpty) = some name := by
      rw [Option.filter_some, nonempty]
      rfl
    rw [Registry.readSz, stored]
    change ((some value).mapM Registry.sz).bind (fun value => .ok (value.filter fun value => !value.isEmpty)) = _
    rw [mapped]
    exact congrArg Except.ok filtered
  announced := by
    rw [announced, Option.bind_some, check_check passed]
    rfl
  applied n a config := by
    have wanted : a.wanted = some name := by
      rw [Application.wanted, config]
      rfl
    have step : machine.step n a = n.give name a.taken := by
      change applyHostname n a = _
      rw [applyHostname, wanted]
      dsimp only
      rw [check_check passed]
    rw [Transducer.next, Transducer.output, step, Naming.give]
    dsimp only
    split_ifs with same taken
    · exact ⟨rfl, fun _ => same, fun other => absurd same other⟩
    · exact ⟨rfl, fun _ => rfl, fun _ => rfl⟩
    · exact ⟨rfl, fun yes => absurd yes taken, fun _ => rfl⟩

/-- The function and the pattern say the same of every text, and a name that passed is kept. -/
theorem rule_eq_pattern (answered name : String) :
    (check answered = .ok name ↔
      name = trim answered ∧ Matches pattern name ∧ name.length ≤ max ∧ ¬Localhost name) ∧
    (check answered = .ok name → Kept name) :=
  ⟨check_iff_matches answered name, kept_of_check⟩

theorem workshop_kept : check " workshop\t" = .ok "workshop" ∧ Kept "workshop" := by
  have passed : check " workshop\t" = .ok "workshop" := by decide +kernel
  exact ⟨passed, (rule_eq_pattern " workshop\t" "workshop").2 passed⟩

/-! ## Whole runs -/

/-- The name last set, if there is one, passes as it is. -/
def Sound (n : Naming) : Prop := ∀ name ∈ n.set, check name = .ok name

/-- What one pass makes of the name, and what it hands to the kernel. -/
theorem step_sound {n : Naming} (sound : Sound n) (a : Application) :
    Sound (machine.next n a) ∧ ∀ name ∈ machine.output n a, check name = .ok name := by
  change Sound (applyHostname n a).1 ∧ ∀ name ∈ (applyHostname n a).2, check name = .ok name
  rw [applyHostname]
  cases a.wanted with
  | none => exact ⟨sound, nofun⟩
  | some wanted =>
    dsimp only
    cases passed : check wanted with
    | error reason => exact ⟨sound, nofun⟩
    | ok name =>
      dsimp only [Naming.give]
      split_ifs
      · exact ⟨sound, nofun⟩
      · constructor
        all_goals
          rintro _ ⟨⟩
          exact check_check passed
      · refine ⟨sound, ?_⟩
        rintro _ ⟨⟩
        exact check_check passed

/-- Whatever the registry and the leases say over any passes, the kernel is only ever given names that the
pattern matches, and no name that a surface would refuse is the machine's. -/
theorem given_matches (passes : List Application) :
    Sound (machine.run {} passes) ∧
      ∀ given ∈ machine.outputs {} passes, ∀ name ∈ given, Matches pattern name ∧ name.length ≤ max := by
  have empty : Sound {} := nofun
  have next (n : Naming) (a : Application) (sound : Sound n) := step_sound sound a
  refine ⟨machine.run_invariant (fun n a sound => (next n a sound).1) empty passes, ?_⟩
  refine (machine.run_free {} passes).forall_outputs empty (fun n a _ sound => (next n a sound).1) ?_
  intro n a _ sound name given
  have passes := (check_iff_matches name name).mp ((next n a sound).2 name given)
  exact ⟨passes.2.1, passes.2.2.1⟩

end Netd.Model.Hostname
