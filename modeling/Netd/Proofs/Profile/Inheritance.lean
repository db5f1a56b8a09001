import Netd.Machine.Fallible
import Netd.Math.Letters
import Netd.Model.Profile

/-! # Profiles inherit from the keys above them

What a profile tree means, said without a walk: a key has the values that the nearest key on the way
to it sets, it is enabled where every key on the way is, and it is malformed by itself or under those
values. The walk of the source hands merged values down and collects profiles as it goes; it is
shown to find the same profiles and to fail on the same trees.
-/

namespace Netd.Model

/-! ## Paths -/

/-- A key without what is under it. -/
structure Level where
  name : String
  values : List (String × RawValue)
deriving DecidableEq, Repr

def RawKey.level (key : RawKey) : Level := ⟨key.name, key.values⟩

/-- The names on the way to a key. -/
def names (line : List Level) : List String := line.map Level.name

/-- As written, `/`-separated. -/
def pathOf (line : List Level) : String := "/".intercalate (names line)

/-- The name a profile is looked up by. -/
def lowerPath (line : List Level) : String := toAsciiLowercase (pathOf line)

/-- Names as they compare. -/
def lowerNames (line : List Level) : List String := (names line).map toAsciiLowercase

theorem toAsciiLowercase_append (first second : String) :
    toAsciiLowercase (first ++ second) = toAsciiLowercase first ++ toAsciiLowercase second := by
  rw [toAsciiLowercase, toAsciiLowercase, toAsciiLowercase, ← String.toList_inj]
  simp

theorem toAsciiLowercase_intercalate (names : List String) :
    toAsciiLowercase ("/".intercalate names) = "/".intercalate (names.map toAsciiLowercase) := by
  have slash : toAsciiLowercase "/" = "/" := by decide +kernel
  induction names with
  | nil => simp [toAsciiLowercase]
  | cons name rest ih =>
    cases rest with
    | nil => simp
    | cons next rest =>
      rw [String.intercalate_cons_cons, toAsciiLowercase_append, toAsciiLowercase_append, ih, slash]
      simp only [List.map_cons, String.intercalate_cons_cons]

theorem lowerPath_eq (line : List Level) : lowerPath line = "/".intercalate (lowerNames line) :=
  toAsciiLowercase_intercalate _

/-- No key on the way has a name that no key may have. -/
def WellNamed (line : List Level) : Prop := ∀ level ∈ line, badKeyName level.name = false

theorem WellNamed.no_slash {line : List Level} (named : WellNamed line) :
    ∀ name ∈ lowerNames line, '/' ∉ name.toList := by
  intro name member slash
  simp only [lowerNames, names, List.map_map, List.mem_map] at member
  obtain ⟨level, there, rfl⟩ := member
  simp only [Function.comp_apply, toAsciiLowercase, String.toList_map, List.mem_map] at slash
  obtain ⟨c, inside, lower⟩ := slash
  have fine := named level there
  simp only [badKeyName, containsChar, Bool.or_eq_false_iff] at fine
  rw [(Letters.toLower_eq_symbol (by decide)).mp lower] at inside
  simp [inside] at fine

/-- Keys with the same path have the same names on the way. -/
theorem lowerNames_of_lowerPath {line other : List Level} (named : WellNamed line) (otherNamed : WellNamed other)
    (nonempty : line ≠ []) (otherNonempty : other ≠ []) (same : lowerPath line = lowerPath other) :
    lowerNames line = lowerNames other := by
  have split (l : List Level) (named : WellNamed l) (nonempty : l ≠ []) :
      (lowerPath l).toList.splitOn '/' = (lowerNames l).map String.toList := by
    rw [lowerPath_eq, String.toList_intercalate]
    apply List.splitOn_intercalate
    · rintro chars member
      obtain ⟨name, there, rfl⟩ := List.mem_map.mp member
      exact named.no_slash name there
    · simpa [lowerNames, names] using nonempty
  have both := split line named nonempty
  rw [same, split other otherNamed otherNonempty] at both
  exact ((List.map_injective_iff.mpr fun _ _ => String.toList_inj.mp) both).symm

theorem pathOf_isEmpty {line : List Level} (named : WellNamed line) :
    (pathOf line).isEmpty = line.isEmpty := by
  cases line with
  | nil => rfl
  | cons level rest =>
    have fine := named level List.mem_cons_self
    simp only [badKeyName, Bool.or_eq_false_iff] at fine
    have there : level.name ≠ "" := by
      rintro blank
      simp [blank] at fine
    have text : pathOf (level :: rest) ≠ "" := by
      rw [pathOf, names, List.map_cons]
      cases rest with
      | nil => simpa using there
      | cons next rest =>
        rw [List.map_cons, String.intercalate_cons_cons]
        intro blank
        have chars := congrArg String.toList blank
        simp at chars
    simpa using text

/-- The path of a key from the path of the one above. -/
theorem joinPath_pathOf {above : List Level} (named : WellNamed above) (level : Level) :
    joinPath (pathOf above) level.name = pathOf (above ++ [level]) := by
  rw [joinPath, pathOf_isEmpty named]
  cases above with
  | nil => simp [pathOf, names]
  | cons first rest =>
    rw [pathOf, pathOf, names, names, List.map_append, String.intercalate_append_of_ne_nil (by simp) (by simp)]
    simp

/-! ## What a key means -/

/-- The value that a key sets itself. -/
def valueIn (values : List (String × RawValue)) (name : String) : Option RawValue :=
  (values.find? fun entry => toAsciiLowercase entry.1 = name).map Prod.snd

/-- The value that the nearest key on the way sets, from the key itself upwards. -/
def nearest (line : List Level) (name : String) : Option RawValue :=
  line.reverse.findSome? fun level => valueIn level.values name

/-- Every value of a key, its own and those it inherits. -/
def valueSet (line : List Level) : Values :=
  vocabulary.foldl (fun values name =>
    match nearest line name with
    | some value => values.insert name value
    | none => values) .empty

/-- What a key says of itself. -/
def switch (values : List (String × RawValue)) : Bool := ((valueIn values "enabled").bind asBool).getD true

/-- A key is enabled where it and every key above are. -/
def enabledAlong (line : List Level) : Bool := line.all fun level => switch level.values

/-- The profile at the end of a line of keys, if its values can be read. -/
def profileOf (line : List Level) : Option Profile :=
  match parse (pathOf line) (valueSet line) with
  | .ok (address, dns) => some ⟨pathOf line, enabledAlong line, address, dns⟩
  | .error _ => none

/-- A value that no key may set. -/
def BadValue (entry : String × RawValue) : Prop :=
  if toAsciiLowercase entry.1 = "enabled" then asBool entry.2 = none
  else toAsciiLowercase entry.1 ∉ vocabulary

/-- A key that is malformed by itself or under the values it inherits. -/
def Malformed (line : List Level) : Prop :=
  (∃ level ∈ line.getLast?, badKeyName level.name = true ∨ ∃ entry ∈ level.values, BadValue entry) ∨
    profileOf line = none

/-- The lines of keys that start among given keys. -/
inductive Lies : List RawKey → List Level → Prop
  | here {keys : List RawKey} {key : RawKey} (member : key ∈ keys) : Lies keys [key.level]
  | under {keys : List RawKey} {key : RawKey} {line : List Level} (member : key ∈ keys)
      (lies : Lies key.children line) : Lies keys (key.level :: line)

/-- Names compare case-insensitively, and at each level no two are the same. -/
inductive Distinct : List RawKey → Prop
  | mk {keys : List RawKey} (siblings : (keys.map fun key => toAsciiLowercase key.name).Nodup)
      (values : ∀ key ∈ keys, (key.values.map fun entry => toAsciiLowercase entry.1).Nodup)
      (children : ∀ key ∈ keys, Distinct key.children) : Distinct keys

/-! ## The values of a key -/

theorem lookup_foldl_insert (line : List Level) (vocabulary : List String) (values : Values) (name : String) :
    (vocabulary.foldl (fun values name =>
      match nearest line name with
      | some value => values.insert name value
      | none => values) values).lookup name =
      if name ∈ vocabulary then (nearest line name).or (values.lookup name) else values.lookup name := by
  induction vocabulary generalizing values with
  | nil => simp
  | cons first rest ih =>
    rw [List.foldl_cons, ih]
    by_cases same : name = first
    · subst same
      cases nearest line name <;> simp
    · cases nearest line first with
      | none => simp [same]
      | some value => simp [same, SortedMap.lookup_insert_of_ne _ _ same]

theorem lookup_valueSet (line : List Level) (name : String) :
    (valueSet line).lookup name = if name ∈ vocabulary then nearest line name else none := by
  rw [valueSet, lookup_foldl_insert]
  simp [SortedMap.lookup_empty]

theorem nearest_snoc (above : List Level) (level : Level) (name : String) :
    nearest (above ++ [level]) name = (valueIn level.values name).or (nearest above name) := by
  rw [nearest, List.reverse_append, List.reverse_singleton, List.singleton_append, List.findSome?_cons]
  cases valueIn level.values name <;> rfl

/-- What a value that is not bad does to what is inherited. -/
def taken (state : Values × Bool) (entry : String × RawValue) : Values × Bool :=
  if toAsciiLowercase entry.1 = "enabled" then (state.1, state.2 && (asBool entry.2).getD true)
  else (state.1.insert (toAsciiLowercase entry.1) entry.2, state.2)

theorem takeValue_of_bad (path : String) (state : Values × Bool) (entry : String × RawValue)
    (bad : BadValue entry) : ∃ e, takeValue path state entry = .error e := by
  rw [BadValue] at bad
  rw [takeValue]
  split_ifs at bad with enabled
  · exact ⟨_, by simp only [enabled, bad, if_true]; rfl⟩
  · exact ⟨_, by simp only [enabled, bad, if_false]; rfl⟩

theorem takeValue_of_not_bad (path : String) (state : Values × Bool) (entry : String × RawValue)
    (fine : ¬BadValue entry) : takeValue path state entry = .ok (taken state entry) := by
  rw [BadValue] at fine
  rw [takeValue, taken]
  split_ifs at fine with enabled
  · obtain ⟨on, shape⟩ := Option.ne_none_iff_exists'.mp fine
    simp only [enabled, shape, if_true]
    rfl
  · simp only [enabled, if_false, not_not.mp fine, if_true]

theorem valueIn_cons (entry : String × RawValue) (rest : List (String × RawValue)) (name : String) :
    valueIn (entry :: rest) name =
      if toAsciiLowercase entry.1 = name then some entry.2 else valueIn rest name := by
  rw [valueIn, List.find?_cons]
  by_cases same : toAsciiLowercase entry.1 = name <;> simp [same, valueIn]

theorem valueIn_eq_none {values : List (String × RawValue)} {name : String}
    (absent : name ∉ values.map fun entry => toAsciiLowercase entry.1) : valueIn values name = none := by
  simp only [List.mem_map, not_exists, not_and] at absent
  simpa [valueIn] using absent

/-- The values of a key over those it inherits, no two of them of one name. -/
theorem foldl_taken {values : List (String × RawValue)}
    (nodup : (values.map fun entry => toAsciiLowercase entry.1).Nodup) (state : Values × Bool) :
    (∀ name, (values.foldl taken state).1.lookup name =
        if name = "enabled" then state.1.lookup name else (valueIn values name).or (state.1.lookup name)) ∧
      (values.foldl taken state).2 = (state.2 && switch values) := by
  induction values generalizing state with
  | nil => simp [valueIn, switch]
  | cons entry rest ih =>
    obtain ⟨fresh, nodup⟩ := List.nodup_cons.mp nodup
    obtain ⟨lookups, enabled⟩ := ih nodup (taken state entry)
    rw [List.foldl_cons, enabled]
    have once : valueIn rest (toAsciiLowercase entry.1) = none := valueIn_eq_none fresh
    refine ⟨fun name => ?_, ?_⟩
    · rw [lookups, valueIn_cons, taken]
      by_cases named : toAsciiLowercase entry.1 = "enabled"
      · by_cases asked : name = "enabled"
        · simp [named, asked]
        · have other : "enabled" ≠ name := fun same => asked same.symm
          simp [named, asked, other]
      · by_cases asked : name = "enabled"
        · subst asked
          simp [named, SortedMap.lookup_insert_of_ne _ _ (Ne.symm named)]
        · by_cases same : toAsciiLowercase entry.1 = name
          · subst same
            simp [named, once]
          · simp [named, asked, same, SortedMap.lookup_insert_of_ne _ _ (Ne.symm same)]
    · rw [switch, switch, valueIn_cons, taken]
      by_cases named : toAsciiLowercase entry.1 = "enabled"
      · rw [named] at once
        simp [named, once]
      · simp [named]

theorem enabled_not_vocabulary : "enabled" ∉ vocabulary := by decide +kernel

/-- The merged values of a key are those of the nearest keys that set them. -/
theorem foldl_taken_eq {above : List Level} {level : Level}
    (nodup : (level.values.map fun entry => toAsciiLowercase entry.1).Nodup)
    (fine : ∀ entry ∈ level.values, ¬BadValue entry) :
    level.values.foldl taken (valueSet above, enabledAlong above) =
      (valueSet (above ++ [level]), enabledAlong (above ++ [level])) := by
  obtain ⟨lookups, enabled⟩ := foldl_taken nodup (valueSet above, enabledAlong above)
  refine Prod.ext (SortedMap.ext_lookup fun name => ?_) ?_
  · rw [lookups, lookup_valueSet, lookup_valueSet, nearest_snoc]
    by_cases known : name ∈ vocabulary
    · have other : name ≠ "enabled" := fun same => enabled_not_vocabulary (same ▸ known)
      simp [known, other]
    · have none : name ≠ "enabled" → valueIn level.values name = none := by
        intro other
        apply valueIn_eq_none
        intro member
        obtain ⟨entry, there, rfl⟩ := List.mem_map.mp member
        apply fine entry there
        rw [BadValue, if_neg other]
        exact known
      by_cases asked : name = "enabled"
      · simp [asked, enabled_not_vocabulary]
      · simp [known, asked, none asked]
  · rw [enabled]
    simp [enabledAlong]

/-! ## The walk -/

theorem Lies.ne_nil {keys : List RawKey} {line : List Level} (lies : Lies keys line) : line ≠ [] := by
  cases lies <;> simp

theorem Lies.mono {keys more : List RawKey} {line : List Level} (lies : Lies keys line) (subset : keys ⊆ more) :
    Lies more line := by
  cases lies with
  | here member => exact .here (subset member)
  | under member lies => exact .under (subset member) lies

theorem lies_append {first second : List RawKey} {line : List Level} :
    Lies (first ++ second) line ↔ Lies first line ∨ Lies second line := by
  constructor
  · rintro (member | ⟨member, lies⟩)
    · obtain member | member := List.mem_append.mp member
      · exact .inl (.here member)
      · exact .inr (.here member)
    · obtain member | member := List.mem_append.mp member
      · exact .inl (.under member lies)
      · exact .inr (.under member lies)
  · rintro (lies | lies)
    · exact lies.mono (List.subset_append_left _ _)
    · exact lies.mono (List.subset_append_right _ _)

theorem lies_cons {key : RawKey} {rest : List RawKey} {line : List Level} :
    Lies (key :: rest) line ↔ Lies [key] line ∨ Lies rest line := @lies_append [key] rest line

/-- The lines of one key: itself, and those under it. -/
theorem lies_singleton {key : RawKey} {line : List Level} :
    Lies [key] line ↔ line = [key.level] ∨ ∃ rest, line = key.level :: rest ∧ Lies key.children rest := by
  constructor
  · rintro (member | ⟨member, lies⟩)
    · rw [List.mem_singleton.mp member]
      exact .inl rfl
    · obtain rfl := List.mem_singleton.mp member
      exact .inr ⟨_, rfl, lies⟩
  · rintro (rfl | ⟨rest, rfl, lies⟩)
    · exact .here (List.mem_singleton_self key)
    · exact .under (List.mem_singleton_self key) lies

theorem lies_nil {line : List Level} : ¬Lies [] line := by
  rintro (member | ⟨member, -⟩) <;> exact List.not_mem_nil member

/-- Every line starts with a key among those given. -/
theorem Lies.head {keys : List RawKey} {line : List Level} (lies : Lies keys line) :
    ∃ key ∈ keys, ∃ rest, line = key.level :: rest := by
  cases lies with
  | here member => exact ⟨_, member, [], rfl⟩
  | under member lies => exact ⟨_, member, _, rfl⟩

/-- Keys above a key that is not malformed are well named, if they are not malformed either. -/
theorem Lies.wellNamed {keys : List RawKey} {line : List Level} (lies : Lies keys line) {above : List Level}
    (fine : ∀ line, Lies keys line → ¬Malformed (above ++ line)) : WellNamed line := by
  have first {keys : List RawKey} {key : RawKey} {above : List Level} (member : key ∈ keys)
      (fine : ∀ line, Lies keys line → ¬Malformed (above ++ line)) : badKeyName key.name = false := by
    by_contra bad
    apply fine _ (.here member)
    refine .inl ⟨key.level, ?_, .inl (Bool.not_eq_false _ ▸ bad)⟩
    simp
  induction lies generalizing above with
  | here member =>
    rintro level only
    rw [List.mem_singleton.mp only]
    exact first member fine
  | @under keys key line member lies ih =>
    have below : ∀ line, Lies key.children line → ¬Malformed (above ++ [key.level] ++ line) := by
      intro line lies
      rw [List.append_assoc]
      exact fine _ (.under member lies)
    exact List.forall_mem_cons.mpr ⟨first member fine, ih below⟩

/-- What a walk over keys that stand below others returns. -/
def Found (keys : List RawKey) (above : List Level) (out : Profiles) : Except ProfileError Profiles → Prop
  | .error _ => ∃ line, Lies keys line ∧ Malformed (above ++ line)
  | .ok profiles =>
    (∀ line, Lies keys line → ¬Malformed (above ++ line)) ∧
      (∀ line, Lies keys line → profiles.lookup (lowerPath (above ++ line)) = profileOf (above ++ line)) ∧
      ∀ path, (∀ line, Lies keys line → path ≠ lowerPath (above ++ line)) →
        profiles.lookup path = out.lookup path

theorem lowerNames_append (above line : List Level) :
    lowerNames (above ++ line) = lowerNames above ++ lowerNames line := by
  simp [lowerNames, names]

theorem WellNamed.append {above line : List Level} (first : WellNamed above) (second : WellNamed line) :
    WellNamed (above ++ line) := by
  intro level member
  obtain member | member := List.mem_append.mp member
  · exact first level member
  · exact second level member

/-- Lines below the same keys have the same path only where they have the same names. -/
theorem lowerNames_of_below {above line other : List Level} (named : WellNamed above)
    (first : WellNamed line) (second : WellNamed other) (nonempty : line ≠ []) (otherNonempty : other ≠ [])
    (same : lowerPath (above ++ line) = lowerPath (above ++ other)) : lowerNames line = lowerNames other := by
  have whole := lowerNames_of_lowerPath (named.append first) (named.append second)
    (by simp [nonempty]) (by simp [otherNonempty]) same
  rw [lowerNames_append, lowerNames_append] at whole
  exact List.append_cancel_left whole

/-- A line and one that goes on below it have different paths. -/
theorem lowerPath_ne_append {above line : List Level} (named : WellNamed above) (under : WellNamed line)
    (nonempty : above ≠ []) (more : line ≠ []) : lowerPath above ≠ lowerPath (above ++ line) := by
  intro same
  have whole := lowerNames_of_lowerPath named (named.append under) nonempty (by simp [nonempty]) same
  have lengths := congrArg List.length whole
  simp [lowerNames, names, more] at lengths

section Walk

variable {above : List Level}

/-- A key whose own values are in order, before what is under it. -/
theorem Found.of_children {key : RawKey} {out : Profiles} {p : Profile} {result : Except ProfileError Profiles}
    (named : WellNamed (above ++ [key.level])) (fine : ∀ entry ∈ key.values, ¬BadValue entry)
    (profile : profileOf (above ++ [key.level]) = some p)
    (found : Found key.children (above ++ [key.level]) (out.insert (lowerPath (above ++ [key.level])) p) result) :
    Found [key] above out result := by
  have assoc (line : List Level) : above ++ [key.level] ++ line = above ++ key.level :: line := by simp
  cases result with
  | error e =>
    obtain ⟨line, lies, malformed⟩ := found
    exact ⟨key.level :: line, lies_singleton.mpr (.inr ⟨line, rfl, lies⟩), assoc line ▸ malformed⟩
  | ok profiles =>
    obtain ⟨sound, lookups, frame⟩ := found
    have self : ¬Malformed (above ++ [key.level]) := by
      rintro (⟨level, last, malformed⟩ | none)
      · rw [List.getLast?_append, List.getLast?_singleton] at last
        obtain rfl : key.level = level := by simpa using last
        obtain bad | ⟨entry, member, bad⟩ := malformed
        · have good := named key.level (by simp)
          rw [bad] at good
          contradiction
        · exact fine entry member bad
      · rw [profile] at none
        contradiction
    refine ⟨fun line lies => ?_, fun line lies => ?_, fun path other => ?_⟩
    · obtain rfl | ⟨rest, rfl, under⟩ := lies_singleton.mp lies
      · exact self
      · exact assoc rest ▸ sound rest under
    · obtain rfl | ⟨rest, rfl, under⟩ := lies_singleton.mp lies
      · -- Nothing under the key has its path.
        rw [frame, SortedMap.lookup_insert_self, profile]
        intro line under
        exact lowerPath_ne_append named (under.wellNamed sound) (by simp) under.ne_nil
      · exact assoc rest ▸ lookups rest under
    · rw [frame]
      · exact SortedMap.lookup_insert_of_ne _ _ (other [key.level] (lies_singleton.mpr (.inl rfl)))
      · intro line lies
        rw [assoc]
        exact other _ (lies_singleton.mpr (.inr ⟨line, rfl, lies⟩))

/-- Keys beside each other, given what a walk finds under each. -/
theorem walkAll_found {keys : List RawKey} (distinct : Distinct keys) (named : WellNamed above)
    (each : ∀ key ∈ keys, ∀ out,
      Found [key] above out (walk (pathOf above) (valueSet above) (enabledAlong above) out key))
    (out : Profiles) :
    Found keys above out (walkAll (pathOf above) (valueSet above) (enabledAlong above) out keys) := by
  induction keys generalizing out with
  | nil =>
    rw [walkAll]
    exact ⟨fun _ lies => (lies_nil lies).elim, fun _ lies => (lies_nil lies).elim, fun _ _ => rfl⟩
  | cons key rest ih =>
    obtain ⟨siblings, values, children⟩ := distinct
    obtain ⟨fresh, siblings⟩ := List.nodup_cons.mp siblings
    obtain ⟨first, each⟩ := List.forall_mem_cons.mp each
    have distinctRest : Distinct rest :=
      ⟨siblings, (List.forall_mem_cons.mp values).2, (List.forall_mem_cons.mp children).2⟩
    have found := first out
    rw [walkAll]
    cases walked : walk (pathOf above) (valueSet above) (enabledAlong above) out key with
    | error e =>
      rw [walked] at found
      obtain ⟨line, lies, malformed⟩ := found
      exact ⟨line, lies_cons.mpr (.inl lies), malformed⟩
    | ok middle =>
      rw [walked] at found
      obtain ⟨sound, lookups, frame⟩ := found
      have foundRest := ih distinctRest each middle
      change Found (key :: rest) above out (walkAll _ _ _ middle rest)
      cases result : walkAll (pathOf above) (valueSet above) (enabledAlong above) middle rest with
      | error e =>
        rw [result] at foundRest
        obtain ⟨line, lies, malformed⟩ := foundRest
        exact ⟨line, lies_cons.mpr (.inr lies), malformed⟩
      | ok profiles =>
        rw [result] at foundRest
        obtain ⟨soundRest, lookupsRest, frameRest⟩ := foundRest
        refine ⟨fun line lies => ?_, fun line lies => ?_, fun path other => ?_⟩
        · obtain lies | lies := lies_cons.mp lies
          · exact sound line lies
          · exact soundRest line lies
        · obtain lies | lies := lies_cons.mp lies
          · rw [frameRest]
            · exact lookups line lies
            · -- A sibling has another name, so nothing under it is in the way.
              intro other liesRest same
              have names := lowerNames_of_below named (lies.wellNamed sound) (liesRest.wellNamed soundRest)
                lies.ne_nil liesRest.ne_nil same
              obtain ⟨_, only, _, rfl⟩ := lies.head
              obtain ⟨sibling, member, _, rfl⟩ := liesRest.head
              rw [List.mem_singleton.mp only] at names
              apply fresh
              exact List.mem_map.mpr ⟨sibling, member, (List.cons.inj names).1.symm⟩
          · exact lookupsRest line lies
        · rw [frameRest path fun line lies => other line (lies_cons.mpr (.inr lies))]
          exact frame path fun line lies => other line (lies_cons.mpr (.inl lies))

/-- What happens at a key before what is under it. -/
theorem walk_eq (parentPath : String) (inherited : Values) (parentEnabled : Bool) (out : Profiles) (key : RawKey)
    (path : String) (joined : joinPath parentPath key.name = path) :
    walk parentPath inherited parentEnabled out key =
      if badKeyName key.name then .error (.badKeyName parentPath key.name)
      else
        (key.values.foldlM (takeValue path) (inherited, parentEnabled)).bind fun state =>
          (parse path state.1).bind fun config =>
            walkAll path state.1 state.2
              (out.insert (toAsciiLowercase path) ⟨path, state.2, config.1, config.2⟩) key.children := by
  subst joined
  cases key
  rw [walk]
  split_ifs <;> rfl

/-- A key under others, with everything under it. -/
theorem walk_found (key : RawKey) {above : List Level} (named : WellNamed above)
    (values : (key.values.map fun entry => toAsciiLowercase entry.1).Nodup) (children : Distinct key.children)
    (out : Profiles) :
    Found [key] above out (walk (pathOf above) (valueSet above) (enabledAlong above) out key) := by
  induction key using RawKey.induction generalizing above out with
  | step key ih =>
    have here : Lies [key] [key.level] := .here (List.mem_singleton_self key)
    have last : key.level ∈ (above ++ [key.level]).getLast? := by simp
    rw [walk_eq _ _ _ _ _ _ (joinPath_pathOf named key.level)]
    by_cases bad : badKeyName key.name = true
    · rw [if_pos bad]
      exact ⟨[key.level], here, .inl ⟨key.level, last, .inl bad⟩⟩
    have named' : WellNamed (above ++ [key.level]) :=
      named.append (List.forall_mem_singleton.mpr (Bool.not_eq_true _ ▸ bad))
    rw [if_neg bad]
    obtain ⟨⟨entry, member, wrong⟩, e, stop⟩ | ⟨fine, run⟩ :=
      Fallible.foldlM_cases (takeValue_of_bad (pathOf (above ++ [key.level])))
        (takeValue_of_not_bad (pathOf (above ++ [key.level]))) key.values (valueSet above, enabledAlong above)
    · rw [stop]
      exact ⟨[key.level], here, .inl ⟨key.level, last, .inr ⟨entry, member, wrong⟩⟩⟩
    have merged : key.values.foldl taken (valueSet above, enabledAlong above) =
        (valueSet (above ++ [key.level]), enabledAlong (above ++ [key.level])) :=
      @foldl_taken_eq above key.level values fine
    rw [run, merged]
    dsimp only [Except.bind]
    cases parsed : parse (pathOf (above ++ [key.level])) (valueSet (above ++ [key.level])) with
    | error e =>
      refine ⟨[key.level], here, .inr ?_⟩
      rw [profileOf, parsed]
    | ok config =>
      obtain ⟨address, dns⟩ := config
      obtain ⟨siblings, own, below⟩ := children
      have profile : profileOf (above ++ [key.level]) = some
          ⟨pathOf (above ++ [key.level]), enabledAlong (above ++ [key.level]), address, dns⟩ := by
        rw [profileOf, parsed]
      refine Found.of_children named' fine profile (walkAll_found ⟨siblings, own, below⟩ named' ?_ _)
      intro child member out
      exact ih child member named' (own child member) (below child member) out

end Walk

/-- What a whole tree resolves to. -/
theorem resolve_found {root : RawKey} (distinct : Distinct root.children) :
    Found root.children [] .empty (resolve root) := by
  obtain ⟨siblings, values, children⟩ := distinct
  have named : WellNamed [] := List.forall_mem_nil _
  have each : ∀ key ∈ root.children, ∀ out,
      Found [key] [] out (walk (pathOf []) (valueSet []) (enabledAlong []) out key) := by
    intro key member out
    exact walk_found key named (values key member) (children key member) out
  exact walkAll_found ⟨siblings, values, children⟩ named each .empty

/-! ## What holds of every profile -/

/-- Every profile found so far is as wanted under its path. -/
def AllProfiles (wanted : String → Profile → Prop) (profiles : Profiles) : Prop :=
  ∀ path p, profiles.lookup path = some p → wanted path p

theorem AllProfiles.insert {wanted : String → Profile → Prop} {profiles : Profiles} (all : AllProfiles wanted profiles)
    {path : String} {p : Profile} (new : wanted path p) : AllProfiles wanted (profiles.insert path p) := by
  intro other q found
  rw [SortedMap.lookup_insert] at found
  split_ifs at found with same
  · subst same
    obtain rfl := Option.some.inj found
    exact new
  · exact all other q found

section All

variable {wanted : String → Profile → Prop}

theorem walkAll_all {keys : List RawKey} {path : String} {effective : Values} {enabled : Bool}
    (each : ∀ key ∈ keys, ∀ out profiles, AllProfiles wanted out →
      walk path effective enabled out key = .ok profiles → AllProfiles wanted profiles)
    {out profiles : Profiles} (all : AllProfiles wanted out)
    (walked : walkAll path effective enabled out keys = .ok profiles) : AllProfiles wanted profiles := by
  induction keys generalizing out with
  | nil =>
    rw [walkAll] at walked
    obtain rfl := Except.ok.inj walked
    exact all
  | cons key rest ih =>
    obtain ⟨first, each⟩ := List.forall_mem_cons.mp each
    rw [walkAll] at walked
    obtain ⟨middle, step, walked⟩ := Fallible.bind_eq_ok.mp walked
    exact ih each (first out middle all step) walked

variable (read : ∀ path enabled values config, parse path values = .ok config →
  wanted (toAsciiLowercase path) ⟨path, enabled, config.1, config.2⟩)

include read

theorem walk_all (key : RawKey) {parentPath : String} {inherited : Values} {parentEnabled : Bool}
    {out profiles : Profiles} (all : AllProfiles wanted out)
    (walked : walk parentPath inherited parentEnabled out key = .ok profiles) : AllProfiles wanted profiles := by
  induction key using RawKey.induction generalizing parentPath inherited parentEnabled out profiles with
  | step key ih =>
    rw [walk_eq _ _ _ _ _ _ rfl] at walked
    split_ifs at walked
    obtain ⟨state, -, walked⟩ := Fallible.bind_eq_ok.mp walked
    obtain ⟨config, parsed, walked⟩ := Fallible.bind_eq_ok.mp walked
    refine walkAll_all (fun child member out profiles all walked => ?_) (all.insert (read _ _ _ _ parsed)) walked
    exact ih child member all walked

/-- What holds of every profile that is read from values holds of every resolved one. -/
theorem resolve_all {root : RawKey} {profiles : Profiles} (resolved : resolve root = .ok profiles) :
    AllProfiles wanted profiles := by
  refine walkAll_all (fun key _ out profiles all walked => walk_all read key all walked) ?_ resolved
  intro path p found
  rw [SortedMap.lookup_empty] at found
  contradiction

end All

/-- A profile is found under its own path. -/
theorem resolve_path {root : RawKey} {profiles : Profiles} (resolved : resolve root = .ok profiles)
    {path : String} {p : Profile} (known : profiles.lookup path = some p) : path = toAsciiLowercase p.path := by
  have all := @resolve_all (fun path p => path = toAsciiLowercase p.path) (fun _ _ _ _ _ => rfl) root profiles
  exact all resolved path p known

end Netd.Model
