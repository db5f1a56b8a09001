import Netd.Proofs.Profile.Inheritance

/-! # Where a profile tree matters

Neither the order in which the registry lists values and subkeys nor what stands elsewhere in the
tree shows in a resolved profile. Both follow from what the lines of keys of two trees have in
common.
-/

namespace Netd.Model

/-! ## Order -/

/-- The same trees, with siblings and values listed in another order. -/
inductive Reordered : List RawKey → List RawKey → Prop
  | siblings {keys others : List RawKey} (perm : keys.Perm others) : Reordered keys others
  | values {before after children : List RawKey} {name : String} {values others : List (String × RawValue)}
      (perm : values.Perm others) :
      Reordered (before ++ ⟨name, values, children⟩ :: after) (before ++ ⟨name, others, children⟩ :: after)
  | under {before after children others : List RawKey} {name : String} {values : List (String × RawValue)}
      (reordered : Reordered children others) :
      Reordered (before ++ ⟨name, values, children⟩ :: after) (before ++ ⟨name, values, others⟩ :: after)
  | trans {first second third : List RawKey} (left : Reordered first second) (right : Reordered second third) :
      Reordered first third

theorem Reordered.symm {keys others : List RawKey} (reordered : Reordered keys others) :
    Reordered others keys := by
  induction reordered with
  | siblings perm => exact .siblings perm.symm
  | values perm => exact .values perm.symm
  | under _ ih => exact .under ih
  | trans _ _ left right => exact .trans right left

/-- Keys of the same name with the same values, in whatever order. -/
def LevelAlike (first second : Level) : Prop := first.name = second.name ∧ first.values.Perm second.values

/-- Lines of keys that are alike. -/
def LineAlike (line other : List Level) : Prop := List.Forall₂ LevelAlike line other

theorem LineAlike.refl (line : List Level) : LineAlike line line :=
  List.forall₂_same.mpr fun _ _ => ⟨rfl, .refl _⟩

theorem LineAlike.trans {first second third : List Level} (left : LineAlike first second)
    (right : LineAlike second third) : LineAlike first third := by
  induction left generalizing third with
  | nil => exact right
  | cons head _ ih =>
    cases right with
    | cons next rest => exact .cons ⟨head.1.trans next.1, head.2.trans next.2⟩ (ih rest)

/-- Of one key among siblings only the lines through it change. -/
theorem lies_replace {before after : List RawKey} {key other : RawKey}
    (moved : ∀ line, Lies [key] line → ∃ line', Lies [other] line' ∧ LineAlike line line') {line : List Level}
    (lies : Lies (before ++ key :: after) line) :
    ∃ line', Lies (before ++ other :: after) line' ∧ LineAlike line line' := by
  obtain lies | lies := lies_append.mp lies
  · exact ⟨line, lies_append.mpr (.inl lies), .refl line⟩
  obtain lies | lies := lies_cons.mp lies
  · obtain ⟨line', lies', alike⟩ := moved line lies
    exact ⟨line', lies_append.mpr (.inr (lies_cons.mpr (.inl lies'))), alike⟩
  · exact ⟨line, lies_append.mpr (.inr (lies_cons.mpr (.inr lies))), .refl line⟩

theorem Reordered.lies {keys others : List RawKey} (reordered : Reordered keys others) {line : List Level}
    (lies : Lies keys line) : ∃ line', Lies others line' ∧ LineAlike line line' := by
  induction reordered generalizing line with
  | siblings perm => exact ⟨line, lies.mono perm.subset, .refl line⟩
  | @values _ _ children name values others perm =>
    refine lies_replace (fun line lies => ?_) lies
    obtain rfl | ⟨rest, rfl, under⟩ := lies_singleton.mp lies
    · exact ⟨[⟨name, others⟩], lies_singleton.mpr (.inl rfl), .cons ⟨rfl, perm⟩ .nil⟩
    · exact ⟨⟨name, others⟩ :: rest, lies_singleton.mpr (.inr ⟨rest, rfl, under⟩),
        .cons ⟨rfl, perm⟩ (LineAlike.refl rest)⟩
  | @under _ _ children others name values _ ih =>
    refine lies_replace (fun line lies => ?_) lies
    obtain rfl | ⟨rest, rfl, under⟩ := lies_singleton.mp lies
    · exact ⟨[⟨name, values⟩], lies_singleton.mpr (.inl rfl), .refl _⟩
    · obtain ⟨line', lies', alike⟩ := ih under
      exact ⟨⟨name, values⟩ :: line', lies_singleton.mpr (.inr ⟨line', rfl, lies'⟩),
        .cons ⟨rfl, .refl _⟩ alike⟩
  | trans _ _ left right =>
    obtain ⟨middle, lies, first⟩ := left lies
    obtain ⟨last, lies, second⟩ := right lies
    exact ⟨last, lies, first.trans second⟩

/-- One key in place of another of its name. -/
theorem Distinct.replace {before after : List RawKey} {key other : RawKey}
    (distinct : Distinct (before ++ key :: after)) (name : other.name = key.name)
    (values : (other.values.map fun entry => toAsciiLowercase entry.1).Nodup)
    (children : Distinct other.children) : Distinct (before ++ other :: after) := by
  obtain ⟨siblings, own, below⟩ := distinct
  refine ⟨?_, ?_, ?_⟩
  · simpa only [List.map_append, List.map_cons, name] using siblings
  · rw [List.forall_mem_append, List.forall_mem_cons] at own ⊢
    exact ⟨own.1, values, own.2.2⟩
  · rw [List.forall_mem_append, List.forall_mem_cons] at below ⊢
    exact ⟨below.1, children, below.2.2⟩

theorem Distinct.middle {before after : List RawKey} {key : RawKey} (distinct : Distinct (before ++ key :: after)) :
    (key.values.map fun entry => toAsciiLowercase entry.1).Nodup ∧ Distinct key.children := by
  obtain ⟨-, values, children⟩ := distinct
  have member : key ∈ before ++ key :: after := by simp
  exact ⟨values key member, children key member⟩

theorem Reordered.distinct {keys others : List RawKey} (reordered : Reordered keys others)
    (distinct : Distinct keys) : Distinct others := by
  induction reordered with
  | siblings perm =>
    obtain ⟨siblings, values, children⟩ := distinct
    refine ⟨(perm.map _).nodup_iff.mp siblings, fun key member => ?_, fun key member => ?_⟩
    · exact values key (perm.symm.subset member)
    · exact children key (perm.symm.subset member)
  | values perm =>
    obtain ⟨values, children⟩ := distinct.middle
    exact distinct.replace rfl ((perm.map _).nodup_iff.mp values) children
  | under _ ih =>
    obtain ⟨values, children⟩ := distinct.middle
    exact distinct.replace rfl values (ih children)
  | trans _ _ left right => exact right (left distinct)

/-- The values of every key on a line have different names. -/
def ValuesDistinct (line : List Level) : Prop :=
  ∀ level ∈ line, (level.values.map fun entry => toAsciiLowercase entry.1).Nodup

theorem Lies.valuesDistinct {keys : List RawKey} {line : List Level} (lies : Lies keys line)
    (distinct : Distinct keys) : ValuesDistinct line := by
  induction lies with
  | here member =>
    obtain ⟨-, values, -⟩ := distinct
    exact List.forall_mem_singleton.mpr (values _ member)
  | under member _ ih =>
    obtain ⟨-, values, children⟩ := distinct
    exact List.forall_mem_cons.mpr ⟨values _ member, ih (children _ member)⟩

theorem valueIn_perm {values others : List (String × RawValue)} (perm : values.Perm others)
    (nodup : (values.map fun entry => toAsciiLowercase entry.1).Nodup) (name : String) :
    valueIn values name = valueIn others name := by
  induction perm with
  | nil => rfl
  | cons entry _ ih => rw [valueIn_cons, valueIn_cons, ih (List.nodup_cons.mp nodup).2]
  | swap first second rest =>
    rw [valueIn_cons, valueIn_cons, valueIn_cons, valueIn_cons]
    have apart : toAsciiLowercase second.1 ≠ toAsciiLowercase first.1 := by
      intro same
      simp [same] at nodup
    by_cases named : toAsciiLowercase second.1 = name
    · have other : toAsciiLowercase first.1 ≠ name := fun same => apart (named.trans same.symm)
      simp [named, other]
    · simp [named]
  | trans perm _ left right => exact (left nodup).trans (right ((perm.map _).nodup_iff.mp nodup))

/-- What lines that are alike have in common. -/
structure SameMeaning (line other : List Level) : Prop where
  names : names line = names other
  nearest : ∀ name, nearest line name = nearest other name
  enabled : enabledAlong line = enabledAlong other
  ends : (∃ level ∈ line.getLast?, badKeyName level.name = true ∨ ∃ entry ∈ level.values, BadValue entry) ↔
    ∃ level ∈ other.getLast?, badKeyName level.name = true ∨ ∃ entry ∈ level.values, BadValue entry

theorem SameMeaning.lowerPath {line other : List Level} (same : SameMeaning line other) :
    lowerPath line = lowerPath other := by
  rw [Model.lowerPath, Model.lowerPath, pathOf, pathOf, same.names]

theorem SameMeaning.profileOf {line other : List Level} (same : SameMeaning line other) :
    profileOf line = profileOf other := by
  have path : pathOf line = pathOf other := by rw [pathOf, pathOf, same.names]
  have values : valueSet line = valueSet other := by
    apply SortedMap.ext_lookup
    intro name
    rw [lookup_valueSet, lookup_valueSet, same.nearest]
  rw [Model.profileOf, Model.profileOf, path, values, same.enabled]

theorem SameMeaning.malformed {line other : List Level} (same : SameMeaning line other) :
    Malformed line ↔ Malformed other := by
  rw [Malformed, Malformed, same.profileOf, same.ends]

theorem nearest_cons (level : Level) (rest : List Level) (name : String) :
    nearest (level :: rest) name = (nearest rest name).or (valueIn level.values name) := by
  rw [nearest, List.reverse_cons, List.findSome?_append, nearest]
  simp

theorem LineAlike.sameMeaning {line other : List Level} (alike : LineAlike line other)
    (distinct : ValuesDistinct line) : SameMeaning line other := by
  induction alike with
  | nil => exact ⟨rfl, fun _ => rfl, rfl, Iff.rfl⟩
  | @cons first second rest others head tail ih =>
    obtain ⟨nodup, distinct⟩ := List.forall_mem_cons.mp distinct
    obtain ⟨name, perm⟩ := head
    have value := valueIn_perm perm nodup
    have same := ih distinct
    refine ⟨?_, fun name => ?_, ?_, ?_⟩
    · rw [names, List.map_cons, name]
      exact congrArg (second.name :: ·) same.names
    · rw [nearest_cons, nearest_cons, same.nearest, value]
    · rw [enabledAlong, List.all_cons, switch, value]
      exact congrArg (switch second.values && ·) same.enabled
    · cases tail with
      | nil =>
        simp only [List.getLast?_singleton, Option.mem_some_iff, exists_eq_left', name]
        refine or_congr_right ⟨?_, ?_⟩
        · rintro ⟨entry, member, bad⟩
          exact ⟨entry, perm.subset member, bad⟩
        · rintro ⟨entry, member, bad⟩
          exact ⟨entry, perm.symm.subset member, bad⟩
      | cons _ _ =>
        rw [List.getLast?_cons_cons, List.getLast?_cons_cons]
        exact same.ends

/-- Trees that have lines of the same meaning resolve alike. -/
theorem resolve_of_sameMeaning {root other : RawKey} (distinct : Distinct root.children)
    (otherDistinct : Distinct other.children)
    (there : ∀ line, Lies root.children line → ∃ line', Lies other.children line' ∧ SameMeaning line line')
    (back : ∀ line, Lies other.children line → ∃ line', Lies root.children line' ∧ SameMeaning line line') :
    (resolve other).toOption = (resolve root).toOption := by
  have found := resolve_found distinct
  have otherFound := resolve_found otherDistinct
  cases resolved : resolve root with
  | error e =>
    rw [resolved] at found
    obtain ⟨line, lies, malformed⟩ := found
    obtain ⟨line', lies', same⟩ := there line lies
    cases otherResolved : resolve other with
    | error e => rfl
    | ok profiles =>
      rw [otherResolved] at otherFound
      exact (otherFound.1 line' lies' (same.malformed.mp malformed)).elim
  | ok profiles =>
    rw [resolved] at found
    obtain ⟨sound, lookups, frame⟩ := found
    cases otherResolved : resolve other with
    | error e =>
      rw [otherResolved] at otherFound
      obtain ⟨line, lies, malformed⟩ := otherFound
      obtain ⟨line', lies', same⟩ := back line lies
      exact (sound line' lies' (same.malformed.mp malformed)).elim
    | ok others =>
      rw [otherResolved] at otherFound
      obtain ⟨-, otherLookups, otherFrame⟩ := otherFound
      refine congrArg some (SortedMap.ext_lookup fun path => ?_)
      by_cases known : ∃ line, Lies root.children line ∧ path = lowerPath line
      · obtain ⟨line, lies, rfl⟩ := known
        obtain ⟨line', lies', same⟩ := there line lies
        have first : profiles.lookup (lowerPath line) = profileOf line := lookups line lies
        have second : others.lookup (lowerPath line') = profileOf line' := otherLookups line' lies'
        rw [first, same.lowerPath, second, same.profileOf]
      · rw [frame path, otherFrame path]
        · intro line lies same
          obtain ⟨line', lies', meaning⟩ := back line lies
          exact known ⟨line', lies', same.trans meaning.lowerPath⟩
        · exact fun line lies same => known ⟨line, lies, same⟩

theorem resolve_reordered {root other : RawKey} (distinct : Distinct root.children)
    (reordered : Reordered root.children other.children) :
    (resolve other).toOption = (resolve root).toOption := by
  have otherDistinct := reordered.distinct distinct
  refine resolve_of_sameMeaning distinct otherDistinct (fun line lies => ?_) (fun line lies => ?_)
  · obtain ⟨line', lies', alike⟩ := reordered.lies lies
    exact ⟨line', lies', alike.sameMeaning (lies.valuesDistinct distinct)⟩
  · obtain ⟨line', lies', alike⟩ := reordered.symm.lies lies
    exact ⟨line', lies', alike.sameMeaning (lies.valuesDistinct otherDistinct)⟩

/-! ## Elsewhere in the tree -/

/-- Other values for the key at the end of a list of lower-cased names. -/
def setValuesAt (values : List (String × RawValue)) : List String → List RawKey → List RawKey
  | [], keys => keys
  | name :: rest, keys => keys.map fun key =>
    if toAsciiLowercase key.name = name then
      { key with
        values := if rest = [] then values else key.values
        children := setValuesAt values rest key.children }
    else key

/-- Lines that do not come by the key are still there. -/
theorem Lies.setValuesAt {values : List (String × RawValue)} {names : List String} {keys : List RawKey}
    {line : List Level} (lies : Lies keys line) (elsewhere : ¬names <+: lowerNames line) :
    Lies (setValuesAt values names keys) line := by
  induction names generalizing keys line with
  | nil => exact lies
  | cons name rest ih =>
    have kept {key : RawKey} (member : key ∈ keys) (other : toAsciiLowercase key.name ≠ name) :
        key ∈ Model.setValuesAt values (name :: rest) keys :=
      List.mem_map.mpr ⟨key, member, if_neg other⟩
    have replaced {key : RawKey} (member : key ∈ keys) (same : toAsciiLowercase key.name = name)
        (more : rest ≠ []) :
        { key with children := Model.setValuesAt values rest key.children } ∈
          Model.setValuesAt values (name :: rest) keys :=
      List.mem_map.mpr ⟨key, member, by rw [if_pos same, if_neg more]⟩
    -- A key of the name that the line passes is not the last of the names.
    have more {key : RawKey} {line : List Level} (same : toAsciiLowercase key.name = name)
        (elsewhere : ¬name :: rest <+: lowerNames (key.level :: line)) : rest ≠ [] := by
      rintro rfl
      exact elsewhere (List.cons_prefix_cons.mpr ⟨same.symm, List.nil_prefix⟩)
    cases lies with
    | @here _ key member =>
      by_cases same : toAsciiLowercase key.name = name
      · have there := Lies.here (replaced member same (more same elsewhere))
        exact there
      · exact .here (kept member same)
    | @under _ key line member under =>
      by_cases same : toAsciiLowercase key.name = name
      · have below : Lies (Model.setValuesAt values rest key.children) line := by
          apply ih under
          exact fun through => elsewhere (List.cons_prefix_cons.mpr ⟨same.symm, through⟩)
        have there := Lies.under (replaced member same (more same elsewhere)) below
        exact there
      · exact .under (kept member same) under

/-- No key is added. -/
theorem lies_of_setValuesAt {values : List (String × RawValue)} {names : List String} {keys : List RawKey}
    {line : List Level} (lies : Lies (setValuesAt values names keys) line) :
    ∃ line', Lies keys line' ∧ Model.names line' = Model.names line := by
  induction names generalizing keys line with
  | nil => exact ⟨line, lies, rfl⟩
  | cons name rest ih =>
    cases lies with
    | here member =>
      obtain ⟨key, there, rfl⟩ := List.mem_map.mp member
      refine ⟨[key.level], .here there, ?_⟩
      split_ifs <;> rfl
    | @under _ _ line member under =>
      obtain ⟨key, there, rfl⟩ := List.mem_map.mp member
      by_cases same : toAsciiLowercase key.name = name
      · rw [if_pos same] at under ⊢
        obtain ⟨line', lies', names⟩ := ih under
        exact ⟨key.level :: line', .under there lies', congrArg (key.name :: ·) names⟩
      · rw [if_neg same] at under ⊢
        exact ⟨key.level :: line, .under there under, rfl⟩

theorem Distinct.setValuesAt {values : List (String × RawValue)}
    (nodup : (values.map fun entry => toAsciiLowercase entry.1).Nodup) {names : List String}
    {keys : List RawKey} (distinct : Distinct keys) : Distinct (setValuesAt values names keys) := by
  induction names generalizing keys with
  | nil => exact distinct
  | cons name rest ih =>
    obtain ⟨siblings, own, below⟩ := distinct
    have same : (Model.setValuesAt values (name :: rest) keys).map (fun key => toAsciiLowercase key.name) =
        keys.map fun key => toAsciiLowercase key.name := by
      rw [Model.setValuesAt, List.map_map]
      apply List.map_congr_left
      intro key _
      simp only [Function.comp_apply]
      split_ifs <;> rfl
    refine ⟨same ▸ siblings, fun key member => ?_, fun key member => ?_⟩
    · obtain ⟨key, there, rfl⟩ := List.mem_map.mp member
      split_ifs
      · exact nodup
      · exact own key there
      · exact own key there
    · obtain ⟨key, there, rfl⟩ := List.mem_map.mp member
      split_ifs
      · exact ih (below key there)
      · exact ih (below key there)
      · exact below key there

/-- A change of the values of one key shows only in it and in what is under it. -/
theorem resolve_setValuesAt {root : RawKey} (distinct : Distinct root.children)
    {values : List (String × RawValue)} (nodup : (values.map fun entry => toAsciiLowercase entry.1).Nodup)
    {names : List String} {profiles changed : Profiles} (before : resolve root = .ok profiles)
    (after : resolve { root with children := setValuesAt values names root.children } = .ok changed)
    {path : String} (differ : changed.lookup path ≠ profiles.lookup path) :
    ∃ line, Lies root.children line ∧ path = lowerPath line ∧ names <+: lowerNames line := by
  have found := resolve_found distinct
  have foundAfter : Found (setValuesAt values names root.children) [] .empty
      (resolve { root with children := setValuesAt values names root.children }) :=
    resolve_found (distinct.setValuesAt nodup)
  rw [before] at found
  rw [after] at foundAfter
  obtain ⟨-, lookups, frame⟩ := found
  obtain ⟨-, lookupsAfter, frameAfter⟩ := foundAfter
  by_cases known : ∃ line, Lies root.children line ∧ path = lowerPath line
  · obtain ⟨line, lies, rfl⟩ := known
    refine ⟨line, lies, rfl, ?_⟩
    by_contra elsewhere
    apply differ
    have first : profiles.lookup (lowerPath line) = profileOf line := lookups line lies
    have second : changed.lookup (lowerPath line) = profileOf line := lookupsAfter line (lies.setValuesAt elsewhere)
    rw [first, second]
  · refine (differ ?_).elim
    rw [frame path, frameAfter path]
    · intro line lies same
      obtain ⟨line', lies', names⟩ := lies_of_setValuesAt lies
      refine known ⟨line', lies', same.trans ?_⟩
      change lowerPath line = lowerPath line'
      rw [lowerPath, lowerPath, pathOf, pathOf, names]
    · exact fun line lies same => known ⟨line, lies, same⟩

/-! ## The whole -/

/-- A tree resolves to the profiles of its keys, or not at all where one of them is malformed. The
order of its parts does not show, and a change of the values of one key shows only there and below. -/
theorem resolve_inherits {root : RawKey} (distinct : Distinct root.children) :
    ((∃ error, resolve root = .error error) ↔ ∃ line, Lies root.children line ∧ Malformed line) ∧
      (∀ profiles, resolve root = .ok profiles →
        (∀ line, Lies root.children line →
          ∃ p, profileOf line = some p ∧ profiles.lookup (lowerPath line) = some p) ∧
        ∀ path, (profiles.lookup path).isSome = true → ∃ line, Lies root.children line ∧ path = lowerPath line) ∧
      (∀ other : RawKey, Reordered root.children other.children →
        (resolve other).toOption = (resolve root).toOption) ∧
      ∀ (names : List String) (values : List (String × RawValue)) (profiles changed : Profiles),
        (values.map fun entry => toAsciiLowercase entry.1).Nodup → resolve root = .ok profiles →
        resolve { root with children := setValuesAt values names root.children } = .ok changed →
        ∀ path, changed.lookup path ≠ profiles.lookup path →
          ∃ line, Lies root.children line ∧ path = lowerPath line ∧ names <+: lowerNames line := by
  have found := resolve_found distinct
  refine ⟨⟨?_, ?_⟩, ?_, fun _ reordered => resolve_reordered distinct reordered,
    fun _ _ _ _ nodup before after _ differ => resolve_setValuesAt distinct nodup before after differ⟩
  · rintro ⟨e, failed⟩
    rw [failed] at found
    exact found
  · rintro ⟨line, lies, malformed⟩
    cases resolved : resolve root with
    | error e => exact ⟨e, rfl⟩
    | ok profiles =>
      rw [resolved] at found
      exact (found.1 line lies malformed).elim
  · intro profiles resolved
    rw [resolved] at found
    obtain ⟨sound, lookups, frame⟩ := found
    refine ⟨fun line lies => ?_, fun path there => ?_⟩
    · obtain ⟨p, profile⟩ := Option.ne_none_iff_exists'.mp fun none => sound line lies (.inr none)
      exact ⟨p, profile, (lookups line lies).trans profile⟩
    · by_contra unknown
      rw [frame path fun line lies same => unknown ⟨line, lies, same⟩] at there
      contradiction

/-- A key that inherits one value and sets another. -/
def office : RawKey where
  name := "Profiles"
  values := []
  children := [⟨"Office", [("Address.Offered", .int 1)],
    [⟨"London", [("Dns.Offered", .int 1), ("Enabled", .str "on")], []⟩]⟩]

theorem office_distinct : Distinct office.children := by
  refine ⟨by decide +kernel, by decide +kernel, List.forall_mem_singleton.mpr ?_⟩
  refine ⟨by decide +kernel, by decide +kernel, List.forall_mem_singleton.mpr ?_⟩
  exact ⟨.nil, List.forall_mem_nil _, List.forall_mem_nil _⟩

theorem office_inherits :
    (∀ profiles, resolve office = .ok profiles →
        ∀ line, Lies office.children line →
          ∃ p, profileOf line = some p ∧ profiles.lookup (lowerPath line) = some p) ∧
      ((resolve office).toOption.bind fun profiles => (profiles.lookup "office/london").map fun p =>
        (p.enabled, p.address.offered, p.dns.offered)) = some (true, true, true) := by
  obtain ⟨-, every, -, -⟩ := resolve_inherits office_distinct
  refine ⟨fun profiles resolved => (every profiles resolved).1, ?_⟩
  decide +kernel

end Netd.Model
