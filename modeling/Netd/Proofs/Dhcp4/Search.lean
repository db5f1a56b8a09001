import Mathlib.Logic.Relation
import Netd.Model.Dhcp4.Packet
import Netd.Proofs.Text.Utf8

/-! # Domain search lists

The walk over option 119, step by step as the source takes it: it comes to an end on every input, reads inside
the option only, and ends with what `decodeDomainSearch` says. Names spelled back to back come out as they are,
wherever they share their tails.
-/

namespace Netd.Model.Dhcp4

/-! ## The loop -/

/-- The locals of the inner loop. -/
structure Walk where
  labels : List String
  p : ℕ
  jumped : Bool
  hops : ℕ

/-- The locals of the outer loop, with those of the inner one while it runs. -/
structure Search where
  out : List String
  pos : ℕ
  walk : Option Walk

namespace Search

/-- What follows a name that is complete. -/
def finish (out labels : List String) (pos : ℕ) (jumped : Bool) (p : ℕ) : Search ⊕ List String :=
  let out := if labels.isEmpty then out else out ++ [".".intercalate labels]
  if !jumped && pos == p then .inr out else .inl ⟨out, pos, none⟩

/-- One turn of a loop: the positions it reads, and what follows, a next turn or the result. -/
def step (v : Bytes) (s : Search) : List ℕ × (Search ⊕ List String) :=
  match s.walk with
  | none =>
    if s.pos < v.length then ([], .inl { s with walk := some ⟨[], s.pos, false, 0⟩ }) else ([], .inr s.out)
  | some w =>
    match v[w.p]? with
    | none => ([], .inr s.out)
    | some length =>
      if length = 0 then
        ([w.p], finish s.out w.labels (if w.jumped then s.pos else w.p + 1) w.jumped w.p)
      else if length &&& 0xc0 = 0xc0 then
        match v[w.p + 1]? with
        | none => ([w.p], .inr s.out)
        | some low =>
          let pos := if w.jumped then s.pos else w.p + 2
          let p := ((length &&& 0x3f).toNat <<< 8) ||| low.toNat
          if 16 < w.hops + 1 then ([w.p, w.p + 1], .inr s.out)
          else ([w.p, w.p + 1], .inl ⟨s.out, pos, some ⟨w.labels, p, true, w.hops + 1⟩⟩)
      else if v.length < w.p + 1 + length.toNat then ([w.p], .inr s.out)
      else
        let label := fromUtf8Lossy ((v.drop (w.p + 1)).take length.toNat)
        (w.p :: List.range' (w.p + 1) length.toNat,
          .inl ⟨s.out, s.pos, some ⟨w.labels ++ [label], w.p + 1 + length.toNat, w.jumped, w.hops⟩⟩)

/-- Nothing outside the option is read, from whatever state. -/
theorem reads_inside (v : Bytes) (s : Search) : ∀ i ∈ (step v s).1, i < v.length := by
  unfold step
  split
  · split <;> exact List.forall_mem_nil _
  · next w _ =>
    split
    · exact List.forall_mem_nil _
    · next length first =>
      obtain ⟨inside, -⟩ := List.getElem?_eq_some_iff.mp first
      split
      · exact List.forall_mem_singleton.mpr inside
      split
      · split
        · exact List.forall_mem_singleton.mpr inside
        · next low second =>
          obtain ⟨both, -⟩ := List.getElem?_eq_some_iff.mp second
          dsimp only
          split <;> exact List.forall_mem_cons.mpr ⟨inside, List.forall_mem_singleton.mpr both⟩
      split
      · exact List.forall_mem_singleton.mpr inside
      · next fits =>
        refine List.forall_mem_cons.mpr ⟨inside, ?_⟩
        intro i member
        obtain ⟨-, bounded⟩ := List.mem_range'_1.mp member
        omega

/-- A state from which turn after turn leads to a last one, with its outcome. -/
def Leads (v : Bytes) (s : Search) (outcome : Search ⊕ List String) : Prop :=
  ∃ last, Relation.ReflTransGen (fun s t => (step v s).2 = .inl t) s last ∧ (step v last).2 = outcome

variable {v : Bytes} {s t : Search} {outcome : Search ⊕ List String}

theorem Leads.now (ended : (step v s).2 = outcome) : Leads v s outcome := ⟨s, .refl, ended⟩

theorem Leads.trans (first : Leads v s (.inl t)) (second : Leads v t outcome) : Leads v s outcome := by
  obtain ⟨last, path, turn⟩ := first
  obtain ⟨final, rest, ended⟩ := second
  exact ⟨final, (path.tail turn).trans rest, ended⟩

theorem Leads.next (turn : (step v s).2 = .inl t) (rest : Leads v t outcome) : Leads v s outcome :=
  (Leads.now turn).trans rest

/-- What the walk over one name leads to. -/
def named (out : List String) : Option (List String × ℕ × Bool × ℕ) → Search ⊕ List String
  | none => .inr out
  | some (labels, resume, jumped, stopped) => finish out labels resume jumped stopped

/-- The inner loop comes to an end, with the name that `searchName` gives. -/
theorem leads_name (v : Bytes) (out : List String) {position hops : ℕ} {jumped : Bool} {resume pos : ℕ}
    {labels : List String} (same : jumped = true → pos = resume) :
    Leads v ⟨out, pos, some ⟨labels, position, jumped, hops⟩⟩
      (named out (searchName v position hops jumped resume labels)) := by
  fun_induction searchName v position hops jumped resume labels generalizing pos with
  | case1 position hops jumped resume labels inside length =>
    rename_i zero
    have first : v[position]? = some 0 := List.getElem?_eq_some_iff.mpr ⟨inside, zero⟩
    apply Leads.now
    simp only [step, first, if_true]
    cases jumped with
    | false => rfl
    | true =>
      rw [same rfl]
      rfl
  | case2 position hops jumped resume labels inside length nonzero pointer =>
    rename_i missing
    have first : v[position]? = some length := List.getElem?_eq_getElem inside
    apply Leads.now
    simp only [step, first]
    rw [if_neg nonzero, if_pos pointer, missing]
    rfl
  | case3 position hops jumped resume labels inside length nonzero pointer low second =>
    rename_i far
    have first : v[position]? = some length := List.getElem?_eq_getElem inside
    apply Leads.now
    simp only [step, first]
    rw [if_neg nonzero, if_pos pointer, second]
    dsimp only
    rw [if_pos far]
    rfl
  | case4 position hops jumped resume labels inside length nonzero pointer low second few =>
    rename_i ih
    have first : v[position]? = some length := List.getElem?_eq_getElem inside
    refine Leads.next ?_ (ih fun _ => rfl)
    simp only [step, first]
    rw [if_neg nonzero, if_pos pointer, second]
    dsimp only
    rw [if_neg few]
    cases jumped with
    | false => rfl
    | true =>
      rw [same rfl]
      rfl
  | case5 position hops jumped resume labels inside length nonzero label =>
    rename_i cut
    have first : v[position]? = some length := List.getElem?_eq_getElem inside
    apply Leads.now
    simp only [step, first]
    rw [if_neg nonzero, if_neg label, if_pos cut]
    rfl
  | case6 position hops jumped resume labels inside length nonzero label fits =>
    rename_i ih
    have first : v[position]? = some length := List.getElem?_eq_getElem inside
    refine Leads.next ?_ (ih same)
    simp only [step, first]
    rw [if_neg nonzero, if_neg label, if_neg fits]
  | case7 position hops jumped resume labels outside =>
    apply Leads.now
    simp only [step, List.getElem?_eq_none (Nat.not_lt.mp outside)]
    rfl

/-- A turn of the outer loop. -/
theorem leads_turn {v : Bytes} {position : ℕ} (inside : position < v.length) (names : List String) :
    Leads v ⟨names, position, none⟩ (named names (searchName v position 0 false position [])) := by
  have walk : Leads v ⟨names, position, some ⟨[], position, false, 0⟩⟩
      (named names (searchName v position 0 false position [])) := leads_name v names fun _ => rfl
  refine Leads.next ?_ walk
  simp only [step, if_pos inside]

/-- The outer loop comes to an end, with the names that `searchNames` gives. -/
theorem leads_names (v : Bytes) (position : ℕ) (names : List String) :
    Leads v ⟨names, position, none⟩ (.inr (searchNames v position names)) := by
  fun_induction searchNames v position names with
  | case1 position names inside walked =>
    have turn := leads_turn inside names
    rw [walked] at turn
    exact turn
  | case2 position names inside labels resume jumped stopped walked out ended =>
    have turn := leads_turn inside names
    rw [walked, named, finish, if_pos ended] at turn
    exact turn
  | case3 position names inside labels resume jumped stopped walked out further ih =>
    have turn := leads_turn inside names
    rw [walked, named, finish, if_neg further] at turn
    exact turn.trans ih
  | case4 position names outside =>
    apply Leads.now
    simp only [step, if_neg outside]

end Search

/-! ## Names back to back -/

/-- The labels of a name that stands at a position, where the octets behind it begin, and how many pointers lead
through it. A pointer goes back. -/
inductive Spells (octets : Bytes) : ℕ → List String → ℕ → ℕ → Prop
  | root {position : ℕ} (zero : octets[position]? = some 0) : Spells octets position [] (position + 1) 0
  | label {position next hops : ℕ} {label : String} {labels : List String} (nonempty : 1 ≤ (asBytes label).length)
      (short : (asBytes label).length ≤ 63)
      (length : octets[position]? = some (BitVec.ofNat 8 (asBytes label).length))
      (text : (octets.drop (position + 1)).take (asBytes label).length = asBytes label)
      (rest : Spells octets (position + 1 + (asBytes label).length) labels next hops) :
      Spells octets position (label :: labels) next hops
  | pointer {position next hops : ℕ} {high low : U8} {labels : List String} (marked : high &&& 0xc0 = 0xc0)
      (first : octets[position]? = some high) (second : octets[position + 1]? = some low)
      (back : ((high &&& 0x3f).toNat <<< 8 ||| low.toNat) < position)
      (rest : Spells octets ((high &&& 0x3f).toNat <<< 8 ||| low.toNat) labels next hops) :
      Spells octets position labels (position + 2) (hops + 1)

theorem Spells.inside {octets : Bytes} {position next hops : ℕ} {labels : List String}
    (spelled : Spells octets position labels next hops) : position < octets.length := by
  cases spelled with
  | root there | label _ _ there | pointer _ there => exact (List.getElem?_eq_some_iff.mp there).1

/-- Names, by their labels, that stand back to back from a position to the end. -/
inductive Names (octets : Bytes) : ℕ → List (List String) → Prop
  | done : Names octets octets.length []
  | name {position next hops : ℕ} {labels : List String} {names : List (List String)} (nonempty : labels ≠ [])
      (spelled : Spells octets position labels next hops) (few : hops ≤ 16) (rest : Names octets next names) :
      Names octets position (labels :: names)

theorem fromUtf8Lossy_asBytes (text : String) : fromUtf8Lossy (asBytes text) = text := by
  rw [fromUtf8Lossy, asBytes_eq, utf8Chunks_chars, List.map_map]
  exact (congrArg String.ofList (List.map_id _)).trans (String.ofList_toList)

theorem label_not_pointer {length : U8} (short : length.toNat ≤ 63) : length &&& 0xc0 ≠ 0xc0 := by
  intro marked
  have above : 0xc0 ≤ length.toNat := by
    have most : (length &&& 0xc0).toNat ≤ length.toNat := Nat.and_le_left
    rw [marked] at most
    exact most
  omega

/-- A name that is spelled somewhere is walked over as a whole, and left behind it. -/
theorem searchName_spells {octets : Bytes} {position next more : ℕ} {labels : List String}
    (spelled : Spells octets position labels next more) {hops : ℕ} (few : hops + more ≤ 16) (jumped : Bool)
    (resume : ℕ) (earlier : List String) :
    ∃ jumps stopped, searchName octets position hops jumped resume earlier =
        some (earlier ++ labels, if jumped then resume else next, jumps, stopped) ∧
      (!jumps && (if jumped then resume else next) == stopped) = false := by
  induction spelled generalizing hops jumped resume earlier with
  | @root position zero =>
    obtain ⟨inside, read⟩ := List.getElem?_eq_some_iff.mp zero
    refine ⟨jumped, position, ?_, ?_⟩
    · rw [searchName, dif_pos inside, if_pos read, List.append_nil]
    · cases jumped with
      | false => simp
      | true => rfl
  | @label position next more label labels nonempty short length text rest ih =>
    obtain ⟨inside, read⟩ := List.getElem?_eq_some_iff.mp length
    obtain ⟨jumps, stopped, walked, left⟩ := ih few jumped resume (earlier ++ [label])
    have size : octets[position].toNat = (asBytes label).length := by
      rw [read, BitVec.toNat_ofNat, Nat.mod_eq_of_lt (by omega)]
    have nonzero : octets[position] ≠ 0 := by
      intro zero
      rw [zero] at size
      exact absurd size (by intro none; rw [← none] at nonempty; contradiction)
    have fits : ¬octets.length < position + 1 + octets[position].toNat := by
      have enough := congrArg List.length text
      rw [List.length_take, List.length_drop] at enough
      omega
    refine ⟨jumps, stopped, ?_, left⟩
    rw [searchName, dif_pos inside, if_neg nonzero, if_neg (label_not_pointer (by omega)), if_neg fits, size, text,
      fromUtf8Lossy_asBytes, walked, List.append_assoc, List.singleton_append]
  | @pointer position next more high low labels marked first second back rest ih =>
    obtain ⟨inside, read⟩ := List.getElem?_eq_some_iff.mp first
    obtain ⟨jumps, stopped, walked, left⟩ := ih (show hops + 1 + more ≤ 16 by omega) true
      (if jumped then resume else position + 2) earlier
    have nonzero : octets[position] ≠ 0 := by
      rw [read]
      rintro rfl
      contradiction
    refine ⟨jumps, stopped, ?_, left⟩
    rw [searchName, dif_pos inside, if_neg nonzero, if_pos (by rw [read]; exact marked), second]
    dsimp only
    rw [if_neg (by omega), read, walked]
    rfl

/-- Names back to back are read one after another. -/
theorem searchNames_names {octets : Bytes} {position : ℕ} {names : List (List String)}
    (spelled : Names octets position names) (earlier : List String) :
    searchNames octets position earlier = earlier ++ names.map (".".intercalate ·) := by
  induction spelled generalizing earlier with
  | done => 
    rw [searchNames, if_neg (Nat.lt_irrefl _), List.map_nil, List.append_nil]
  | @name position next hops labels names nonempty spelled few rest ih =>
    have inside : position < octets.length := spelled.inside
    obtain ⟨jumps, stopped, walked, left⟩ := searchName_spells spelled
      (show 0 + hops ≤ 16 by rwa [Nat.zero_add]) false position []
    rw [searchNames.eq_def, if_pos inside]
    split
    · next missing =>
      rw [missing] at walked
      contradiction
    · next found resume jumped last there =>
      obtain ⟨⟩ := there.symm.trans walked
      have full : labels.isEmpty = false := List.isEmpty_eq_false_iff.mpr nonempty
      have name : (if ([] ++ labels).isEmpty then earlier else earlier ++ [".".intercalate ([] ++ labels)]) =
          earlier ++ [".".intercalate labels] := by
        rw [List.nil_append, full, if_neg Bool.false_ne_true]
      dsimp only
      rw [name, if_neg (Bool.eq_false_iff.mp left), if_neg Bool.false_ne_true, ih, List.map_cons, List.append_assoc,
        List.singleton_append]

/-- Names come out as they are spelled. -/
theorem decodeDomainSearch_names {octets : Bytes} {names : List (List String)} (spelled : Names octets 0 names) :
    decodeDomainSearch octets = names.map (".".intercalate ·) := by
  rw [decodeDomainSearch, searchNames_names spelled, List.nil_append]

/-- The walk over option 119 comes to an end inside it, and gives the names that stand in it. -/
theorem domain_search :
    (∀ v, Search.Leads v ⟨[], 0, none⟩ (.inr (decodeDomainSearch v))) ∧
      (∀ v s, ∀ i ∈ (Search.step v s).1, i < v.length) ∧
        ∀ v names, Names v 0 names → decodeDomainSearch v = names.map (".".intercalate ·) :=
  ⟨fun v => Search.leads_names v 0 [], Search.reads_inside, fun _ _ => decodeDomainSearch_names⟩

/-- Two names that share their last label. -/
def shared : Bytes := [1, 97, 1, 98, 0, 1, 99, 0xc0, 2]

theorem shared_names : decodeDomainSearch shared = ["a.b", "c.b"] := by
  have a : asBytes "a" = [97] := by decide +kernel
  have b : asBytes "b" = [98] := by decide +kernel
  have c : asBytes "c" = [99] := by decide +kernel
  have tail : Spells shared 2 ["b"] 5 0 := by
    refine .label (by rw [b]; decide) (by rw [b]; decide) (by rw [b]; rfl) (by rw [b]; rfl) ?_
    rw [b]
    exact .root rfl
  have first : Spells shared 0 ["a", "b"] 5 0 := by
    refine .label (by rw [a]; decide) (by rw [a]; decide) (by rw [a]; rfl) (by rw [a]; rfl) ?_
    rw [a]
    exact tail
  have second : Spells shared 5 ["c", "b"] 9 1 := by
    refine .label (by rw [c]; decide) (by rw [c]; decide) (by rw [c]; rfl) (by rw [c]; rfl) ?_
    rw [c]
    exact @Spells.pointer shared 7 5 0 0xc0 2 ["b"] rfl rfl rfl (by decide) tail
  exact domain_search.2.2 shared [["a", "b"], ["c", "b"]]
    (.name (by decide) first (by decide) (.name (by decide) second (by decide) .done))

end Netd.Model.Dhcp4
