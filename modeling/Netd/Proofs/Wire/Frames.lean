import Netd.Machine.Framing
import Netd.Model.Wire
import Netd.Proofs.Octets

/-! # Frames on the control wire

A frame is a payload behind its length in four octets, least significant first. Both ends of the
wire read the header before anything else and refuse a length past the ceiling, so the first frame
of a stream ends at the same octet for both.
-/

namespace Netd.Model.Wire

/-! ## Headers -/

/-- A length reads back as it was written. -/
theorem fromLeBytes_toLeBytes (value : U32) : fromLeBytes (toLeBytes 4 value) = value := by
  rw [fromLeBytes, toLeBytes, List.reverse_reverse]
  exact fromBeBytes_toBeBytes value rfl

theorem length_toLeBytes (value : U32) : (toLeBytes 4 value).length = 4 := rfl

/-- A header is the first four octets. -/
theorem announced_append {buf : Bytes} (more : Bytes) (known : 4 ≤ buf.length) :
    announced (buf ++ more) = announced buf := by
  rw [announced, announced, List.take_append_of_le_length known]

theorem announced_take {stream : Bytes} {k : ℕ} (within : k ≤ stream.length) (known : 4 ≤ k) :
    announced (stream.take k) = announced stream := by
  conv_rhs => rw [← stream.take_append_drop k]
  refine (announced_append _ ?_).symm
  rwa [List.length_take, Nat.min_eq_left within]

/-- A frame announces its payload, unless that is too long to be announced. -/
theorem announced_frame {payload : Bytes} (fits : payload.length < 2 ^ 32) (more : Bytes) :
    announced (frame payload ++ more) = payload.length := by
  have header : (frame payload ++ more).take 4 = toLeBytes 4 (count payload) := by
    rw [frame, List.append_assoc]
    exact List.take_left' (length_toLeBytes _)
  rw [announced, header, fromLeBytes_toLeBytes, count, BitVec.toNat_ofNat, Nat.mod_eq_of_lt fits]

theorem length_frame (payload : Bytes) : (frame payload).length = 4 + payload.length := by
  rw [frame, List.length_append, length_toLeBytes]

/-- What a frame announces is what is behind its header. -/
theorem payload_frame {payload : Bytes} (fits : payload.length < 2 ^ 32) (more : Bytes) :
    ((frame payload ++ more).drop 4).take (announced (frame payload ++ more)) = payload := by
  have header : (frame payload ++ more).drop 4 = payload ++ more := by
    rw [frame, List.append_assoc]
    exact List.drop_left' (length_toLeBytes _)
  rw [header, announced_frame fits, List.take_left]

/-! ## Where a frame ends -/

/-- The frames of the control wire; of one that is too large only the header is read. -/
def framing : Framing U8 where
  header := 4
  size buf := if announced buf > maxMessageBytes then 4 else 4 + announced buf
  header_le buf := by
    split_ifs
    · exact le_rfl
    · exact Nat.le_add_right 4 _
  size_append buf more known := by rw [announced_append more known]

/-- Where the first frame of a stream ends, as far as it is read. -/
def frameEnd (stream : Bytes) : ℕ :=
  if stream.length < 4 then 4
  else if announced stream > maxMessageBytes then 4
  else 4 + announced stream

theorem target_framing (stream : Bytes) : framing.target stream = frameEnd stream := rfl

theorem four_le_frameEnd (stream : Bytes) : 4 ≤ frameEnd stream := framing.header_le_target stream

/-- The end of the first of several frames. -/
theorem frameEnd_frame {payload : Bytes} (small : payload.length ≤ maxMessageBytes) (more : Bytes) :
    frameEnd (frame payload ++ more) = (frame payload).length := by
  have fits : payload.length < 2 ^ 32 := Nat.lt_of_le_of_lt small (by decide)
  have long : ¬(frame payload ++ more).length < 4 := by
    rw [List.length_append, length_frame]
    omega
  rw [frameEnd, if_neg long, announced_frame fits, if_neg (Nat.not_lt.mpr small), length_frame]

end Netd.Model.Wire
