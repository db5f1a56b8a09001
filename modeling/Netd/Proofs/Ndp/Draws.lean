import Netd.Proofs.Ndp.Addresses

/-! # The loop that draws an identifier ends

Nothing in the loop decreases. That it ends is a property of the generator, which meets every nonzero
state, so also one whose identifier is free; and no state it can be in is zero.
-/

namespace Netd.Model.Ndp

/-- From every nonzero state the loop of `new_temp`, which nothing bounds, ends in exactly one way: with an
identifier that is neither reserved nor taken, the one of the new address, and a state that is not zero.
No other states are reached: an engine begins with one, and a step of the generator keeps to them. -/
theorem new_temp_ends :
    (∀ seed : U64, seed ||| 1 ≠ 0) ∧ (∀ rng : U64, rng ≠ 0 → nextRandom rng ≠ 0) ∧
      (∀ sha1 config ops, ((Engine.machine sha1).run (Engine.new config) ops).rng ≠ 0) ∧
      ∀ (rng : U64) (now : ℕ) (prefixAddr : Ipv6Addr) (p : Prefix), rng ≠ 0 → p.temps.length ≤ maxTemps →
        ∃ drawn, Retry.Ends drawIid (unclaimed prefixAddr p) rng drawn ∧
          (∀ other, Retry.Ends drawIid (unclaimed prefixAddr p) rng other → other = drawn) ∧
          reservedIid drawn.1 = false ∧ p.taken (join prefixAddr drawn.1) = false ∧ drawn.2 ≠ 0 ∧
          (newTemp rng now prefixAddr p).1.address = join prefixAddr drawn.1 ∧
          (newTemp rng now prefixAddr p).2 = nextRandom drawn.2 ∧ (newTemp rng now prefixAddr p).2 ≠ 0 := by
  refine ⟨or_one_ne_zero, nextRandom_ne_zero, fun sha1 config ops => ?_, fun rng now prefixAddr p nonzero few => ?_⟩
  · have sound : ((Engine.machine sha1).run (Engine.new config) ops).Sound sha1 config :=
      Engine.reachable_sound config ops
    exact sound.rng
  · have ends := newTemp_ends nonzero prefixAddr few
    have behind : (acceptedIid (unclaimed prefixAddr p) generatorStates rng).2 ≠ 0 :=
      Engine.acceptedIid_good nextRandom_ne_zero _ _ nonzero
    obtain ⟨unreserved, free⟩ := unclaimed_iff.mp ends.acceptable_fst
    exact ⟨_, ends, fun other ends' => ends'.unique ends, unreserved, free, behind, rfl, rfl,
      nextRandom_ne_zero _ behind⟩

/-- Where the first identifier is taken, the second is drawn. -/
def takenFirst : Prefix where
  onLink := true
  validUntil := none
  preferredUntil := none
  stable := join 0x20010db8000000000000000000000000 0x408220410c011441
  temps := []

theorem second_identifier_drawn : (newTemp 1 0 0x20010db8000000000000000000000000 takenFirst).1.address ≠
      join 0x20010db8000000000000000000000000 0x408220410c011441 ∧
    ∃ drawn, Retry.Ends drawIid (unclaimed 0x20010db8000000000000000000000000 takenFirst) 1 drawn ∧ drawn.2 ≠ 0 := by
  obtain ⟨drawn, ends, -, -, free, nonzero, address, -⟩ := new_temp_ends.2.2.2 1 0
    0x20010db8000000000000000000000000 takenFirst (by decide) (by decide)
  refine ⟨?_, drawn, ends, nonzero⟩
  rw [address]
  intro same
  rw [same] at free
  exact absurd free (by decide +kernel)

end Netd.Model.Ndp
