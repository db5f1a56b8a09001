import Netd.Machine.Fallible
import Netd.Math.Letters
import Netd.Model.Policy

/-! # Two readers of a join

netd reads the target of a `JOIN` by cutting the expression at fixed places; `pnp_core` reads a name,
splits an argument list and wants exactly one argument. On every expression that `pnp_core` accepts the
two agree on whether it is a join and on the profile it names.
-/

namespace Netd.Model.Policy

open Letters

/-! ## Arguments -/

theorem isDelimiter_toLower (c : Char) : isDelimiter c.toLower = isDelimiter c := by
  have same {d : Char} (symbol : d.toNat < 65) : (c.toLower == d) = (c == d) := by
    rw [Bool.eq_iff_iff, beq_iff_eq, beq_iff_eq]
    exact toLower_eq_symbol symbol
  rw [isDelimiter, isDelimiter, same (by decide), same (by decide), same (by decide)]

/-- A list that closed: the arguments read from here on, and the text they were cut from. -/
theorem splitArgsFrom_ok {depth : ℕ} {current : List Char} {args out : List (List Char)} {input rest : List Char}
    (split : splitArgsFrom depth current args input = .ok (out, rest)) :
    (out = args ∧ args = [] ∧ current = []) ∨
      ∃ arg more, out = args ++ arg :: more ∧
        current ++ input = arg ++ more.flatMap (fun next => ',' :: next) ++ ')' :: rest := by
  induction input generalizing depth current args with
  | nil => contradiction
  | cons c tail ih =>
    -- A character that belongs to the argument under way.
    have grow {deeper : ℕ} (split : splitArgsFrom deeper (current ++ [c]) args tail = .ok (out, rest)) :
        (out = args ∧ args = [] ∧ current = []) ∨
          ∃ arg more, out = args ++ arg :: more ∧
            current ++ c :: tail = arg ++ more.flatMap (fun next => ',' :: next) ++ ')' :: rest := by
      obtain ⟨-, -, empty⟩ | ⟨arg, more, rfl, cut⟩ := ih split
      · simp at empty
      · exact .inr ⟨arg, more, rfl, by rw [← cut]; simp⟩
    rw [splitArgsFrom] at split
    split_ifs at split with opens closes last there only comma blank
    · exact grow split
    · obtain ⟨rfl, rfl⟩ := Prod.mk.inj (Except.ok.inj split)
      exact .inr ⟨current, [], rfl, by simp [closes]⟩
    · obtain ⟨rfl, rfl⟩ := Prod.mk.inj (Except.ok.inj split)
      refine .inl ⟨rfl, ?_, ?_⟩
      · simpa using only
      · simpa using there
    · exact grow split
    · obtain ⟨-, none, -⟩ | ⟨arg, more, rfl, cut⟩ := ih split
      · simp at none
      · refine .inr ⟨current, arg :: more, by simp, ?_⟩
        rw [List.nil_append] at cut
        rw [cut, comma.1]
        simp
    · exact grow split

/-- One argument, and nothing after the list. -/
theorem splitArgs_singleton {input arg : List Char} (split : splitArgs input = .ok ([arg], [])) :
    input = '(' :: arg ++ [')'] := by
  rw [splitArgs.eq_def] at split
  split at split
  · obtain ⟨none, -⟩ | ⟨first, more, same, cut⟩ := splitArgsFrom_ok split
    · contradiction
    · obtain ⟨rfl, none⟩ := List.cons.inj same
      subst none
      simpa using cut
  · obtain ⟨none, -⟩ := Prod.mk.inj (Except.ok.inj split)
    contradiction

/-! ## Expressions -/

/-- An action that joins nothing, by name or by index. -/
def Action.Plain : Action → Prop
  | .join _ | .verdict (.join _) => False
  | _ => True

/-- Every action but a join is read as a plain one. -/
theorem parseNamed_cases {prompt : List (List Char) → Except ActionParseError Action} {name : String}
    {args : List (List Char)} {action : Action}
    (plain : ∀ args action, prompt args = .ok action → action.Plain)
    (parsed : parseNamed prompt name args = .ok action) :
    (name = "JOIN" ∧ parseJoin args = .ok action) ∨ (name ≠ "JOIN" ∧ action.Plain) := by
  have bare {verdict : Action} (parsed : bare verdict args = .ok action) (there : verdict.Plain) :
      action.Plain := by
    cases args with
    | nil => exact Except.ok.inj parsed ▸ there
    | cons => contradiction
  by_cases join : name = "JOIN"
  · subst join
    exact .inl ⟨rfl, parsed⟩
  refine .inr ⟨join, ?_⟩
  rw [parseNamed.eq_def] at parsed
  split at parsed
  · exact bare parsed trivial
  · exact bare parsed trivial
  · exact bare parsed trivial
  · exact bare parsed trivial
  · exact bare parsed trivial
  · contradiction
  · rw [parseReject.eq_def] at parsed
    split at parsed
    · exact Except.ok.inj parsed ▸ trivial
    · split at parsed
      · exact Except.ok.inj parsed ▸ trivial
      · contradiction
    · contradiction
  · exact plain args action parsed
  · rw [parseTag.eq_def] at parsed
    split at parsed
    · obtain ⟨op, -, rfl⟩ := Fallible.map_eq_ok.mp parsed
      trivial
    · split at parsed
      · obtain ⟨op, -, rfl⟩ := Fallible.map_eq_ok.mp parsed
        trivial
      · contradiction
    · contradiction
  · rw [parseCount.eq_def] at parsed
    split at parsed
    · exact Except.ok.inj parsed ▸ trivial
    · split_ifs at parsed
      · exact Except.ok.inj parsed ▸ trivial
      · split at parsed
        · exact Except.ok.inj parsed ▸ trivial
        · contradiction
    · contradiction
  · rw [parseReport.eq_def] at parsed
    split at parsed
    · split at parsed
      · split_ifs at parsed
        exact Except.ok.inj parsed ▸ trivial
      · contradiction
    · contradiction
  · contradiction

theorem parsePrompt_plain {parseFallback : List Char → Except ActionParseError (Action × List Char)}
    (args : List (List Char)) (action : Action) (parsed : parsePrompt parseFallback args = .ok action) :
    action.Plain := by
  rw [parsePrompt.eq_def] at parsed
  split at parsed
  · exact Except.ok.inj parsed ▸ trivial
  · obtain ⟨⟨inner, left⟩, -, parsed⟩ := Fallible.bind_eq_ok.mp parsed
    dsimp only at parsed
    split at parsed
    · contradiction
    · split at parsed
      · exact Except.ok.inj parsed ▸ trivial
      · exact Except.ok.inj parsed ▸ trivial
  · contradiction

/-- The letters in front of an expression, up to its arguments. -/
def nameOf (input : List Char) : List Char := input.takeWhile fun c => !isDelimiter c

/-- What follows the name. -/
def afterName (input : List Char) : List Char := input.dropWhile fun c => !isDelimiter c

theorem nameOf_append_afterName (input : List Char) : nameOf input ++ afterName input = input :=
  List.takeWhile_append_dropWhile

theorem parseFront_ok {prompt : List (List Char) → Except ActionParseError Action} {input rest : List Char}
    {action : Action} (parsed : parseFront prompt input = .ok (action, rest)) :
    ∃ args, splitArgs (afterName input) = .ok (args, rest) ∧
      parseNamed prompt (toAsciiUppercase (String.ofList (nameOf input))) args = .ok action := by
  rw [parseFront] at parsed
  dsimp only at parsed
  split_ifs at parsed
  · contradiction
  obtain ⟨⟨args, after⟩, split, parsed⟩ := Fallible.bind_eq_ok.mp parsed
  obtain ⟨found, named, parsed⟩ := Fallible.bind_eq_ok.mp parsed
  obtain ⟨rfl, rfl⟩ := Prod.mk.inj (Except.ok.inj parsed)
  exact ⟨args, split, named⟩

/-- `parse_one` is `parseFront`, whatever fallbacks are allowed. -/
theorem parseOne_eq (chain : ℕ) : ∃ prompt, parseOne chain = parseFront prompt ∧
    ∀ args action, prompt args = .ok action → action.Plain := by
  cases chain with
  | zero => exact ⟨_, rfl, fun _ _ => nofun⟩
  | succ chain => exact ⟨_, rfl, parsePrompt_plain⟩

theorem toAsciiUppercase_eq_join {name : List Char} :
    toAsciiUppercase (String.ofList name) = "JOIN" ↔ name.map Char.toLower = "join".toList := by
  have upper : "JOIN" = toAsciiUppercase (String.ofList "join".toList) := by decide +kernel
  have lower : "join".toList = "join".toList.map Char.toLower := by decide +kernel
  rw [upper, lower, ← map_toUpper_eq_iff, toAsciiUppercase, toAsciiUppercase, ← String.toList_inj]
  simp only [String.toList_map, String.toList_ofList]
  rfl

/-- An expression without its whitespace. -/
def compacted (expr : String) : List Char := expr.toList.filter fun c => !isAsciiWhitespace c

/-- An accepted expression is a name with arguments that end the text. -/
theorem parseAction_ok {expr : String} {action : Action} (parsed : parseAction expr = .ok action) :
    ∃ args, splitArgs (afterName (compacted expr)) = .ok (args, []) ∧
      (((nameOf (compacted expr)).map Char.toLower = "join".toList ∧ parseJoin args = .ok action) ∨
        ((nameOf (compacted expr)).map Char.toLower ≠ "join".toList ∧ action.Plain)) := by
  rw [parseAction] at parsed
  obtain ⟨⟨found, rest⟩, one, parsed⟩ := Fallible.bind_eq_ok.mp parsed
  dsimp only at parsed
  split at parsed
  · contradiction
  · rename_i ended
    obtain rfl := Except.ok.inj parsed
    obtain rfl : rest = [] := by simpa using ended
    obtain ⟨prompt, same, plain⟩ := parseOne_eq maxPromptChain
    rw [same] at one
    obtain ⟨args, split, named⟩ := parseFront_ok one
    have cases := parseNamed_cases plain named
    rw [toAsciiUppercase_eq_join, ne_eq, toAsciiUppercase_eq_join] at cases
    exact ⟨args, split, cases⟩

theorem parseJoin_ok {args : List (List Char)} {action : Action} (parsed : parseJoin args = .ok action) :
    ∃ path, args = [path] ∧ action = .join (String.ofList (foldSeparators path)) := by
  rw [parseJoin.eq_def] at parsed
  split at parsed
  · rename_i path
    dsimp only at parsed
    split_ifs at parsed
    exact ⟨path, rfl, (Except.ok.inj parsed).symm⟩
  · contradiction

/-- An accepted action holds no index. -/
theorem parseAction_no_index {expr : String} {index : ℕ} : parseAction expr ≠ .ok (.verdict (.join index)) := by
  intro parsed
  obtain ⟨args, -, ⟨-, join⟩ | ⟨-, plain⟩⟩ := parseAction_ok parsed
  · obtain ⟨path, -, same⟩ := parseJoin_ok join
    contradiction
  · exact plain

/-! ## The two readers -/

/-- Text that starts like a join has the name of one, and then a parenthesis. -/
theorem nameOf_of_join {compact : List Char} (front : (compact.take 5).map Char.toLower = "join(".toList) :
    (nameOf compact).map Char.toLower = "join".toList := by
  have letters : "join(".toList = ['j', 'o', 'i', 'n', '('] := by decide +kernel
  have word : "join".toList = ['j', 'o', 'i', 'n'] := by decide +kernel
  rw [letters] at front
  rcases compact with _ | ⟨c₁, _ | ⟨c₂, _ | ⟨c₃, _ | ⟨c₄, _ | ⟨c₅, rest⟩⟩⟩⟩⟩ <;>
    simp only [List.take_succ_cons, List.take_zero, List.take_nil, List.map_cons, List.map_nil, List.cons.injEq,
      and_true, and_false, reduceCtorEq] at front
  obtain ⟨j, o, i, n, opens⟩ := front
  have apart {c d : Char} (same : c.toLower = d) (letter : isDelimiter d = false) : isDelimiter c = false := by
    rw [← isDelimiter_toLower, same, letter]
  have closed : isDelimiter c₅ = true := by rw [← isDelimiter_toLower, opens]; rfl
  rw [nameOf]
  simp [apart j rfl, apart o rfl, apart i rfl, apart n rfl, closed, j, o, i, n, word]

theorem joinTarget_eq (expr : String) :
    joinTarget expr =
      if (compacted expr).length < 6 ∨ ((compacted expr).take 5).map Char.toLower ≠ "join(".toList ∨
          (compacted expr).getLast? ≠ some ')' then none
      else some (toAsciiLowercase (String.ofList (foldSeparators ((compacted expr).drop 5).dropLast))) := by
  rw [joinTarget, ← compacted]
  simp only [Bool.or_eq_true, decide_eq_true_eq, bne_iff_ne, or_assoc]

/-- What netd cuts out of a join. -/
theorem joinTarget_cut {expr : String} {name path : List Char} (named : name.map Char.toLower = "join".toList)
    (cut : compacted expr = name ++ '(' :: path ++ [')']) :
    joinTarget expr = some (toAsciiLowercase (String.ofList (foldSeparators path))) := by
  have four : name.length = 4 := by
    have lengths := congrArg List.length named
    rw [List.length_map] at lengths
    exact lengths
  have front : ((compacted expr).take 5).map Char.toLower = "join(".toList := by
    have five : (compacted expr).take 5 = name ++ ['('] := by
      rw [cut, List.append_assoc, List.take_append, four]
      simp [List.take_of_length_le (l := name) (i := 5) (by omega)]
    rw [five, List.map_append, named]
    decide +kernel
  have last : (compacted expr).getLast? = some ')' := by rw [cut, List.getLast?_append]; rfl
  have long : ¬(compacted expr).length < 6 := by
    rw [cut]
    simp only [List.length_append, List.length_cons, List.length_nil]
    omega
  have middle : ((compacted expr).drop 5).dropLast = path := by
    rw [cut, List.append_assoc, List.drop_append, four]
    simp [List.drop_of_length_le (l := name) (i := 5) (by omega)]
  rw [joinTarget_eq, if_neg, middle]
  simp only [long, front, last, ne_eq, not_true_eq_false, or_self, not_false_eq_true]

/-- On every expression that is accepted, netd and `pnp_core` read the same joins. -/
theorem joinTarget_of_parseAction {expr : String} {action : Action} (parsed : parseAction expr = .ok action)
    (target : String) :
    joinTarget expr = some target ↔ ∃ profile, action = .join profile ∧ toAsciiLowercase profile = target := by
  obtain ⟨args, split, read⟩ := parseAction_ok parsed
  -- A name that reads `join` is one, with one argument and nothing else.
  have join (named : (nameOf (compacted expr)).map Char.toLower = "join".toList) :
      ∃ profile, action = .join profile ∧ joinTarget expr = some (toAsciiLowercase profile) := by
    obtain ⟨-, one⟩ | ⟨other, -⟩ := read
    · obtain ⟨path, rfl, same⟩ := parseJoin_ok one
      have cut := nameOf_append_afterName (compacted expr)
      rw [splitArgs_singleton split] at cut
      exact ⟨_, same, joinTarget_cut named (by simpa using cut.symm)⟩
    · exact absurd named other
  constructor
  · intro found
    have front : ((compacted expr).take 5).map Char.toLower = "join(".toList := by
      by_contra other
      rw [joinTarget_eq, if_pos (.inr (.inl other))] at found
      contradiction
    obtain ⟨profile, same, cut⟩ := join (nameOf_of_join front)
    exact ⟨profile, same, Option.some.inj (cut.symm.trans found)⟩
  · rintro ⟨profile, rfl, rfl⟩
    obtain ⟨named, -⟩ | ⟨-, plain⟩ := read
    · obtain ⟨other, same, cut⟩ := join named
      obtain rfl := Action.join.inj same
      exact cut
    · exact plain.elim

end Netd.Model.Policy
