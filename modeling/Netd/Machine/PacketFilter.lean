import Mathlib.Data.List.Basic
import Mathlib.Tactic.SplitIfs

/-! # Classic packet filters

The loads, the jumps on a constant and the returns of classic BPF. A program has an accumulator and an
index register, jumps only forward, by a number of instructions to go over, and returns how much of the
packet is kept. A load outside the packet returns none of it. What a program accepts is found by reading
it from the front, with one rule for each kind of instruction.
-/

namespace Bpf

structure Insn where
  code : BitVec 16
  jt : BitVec 8
  jf : BitVec 8
  k : BitVec 32
deriving DecidableEq, Repr

inductive Width where
  | byte
  | half
  | word
deriving DecidableEq, Repr

def Width.octets : Width → ℕ
  | byte => 1
  | half => 2
  | word => 4

/-- How a jump compares the accumulator with its constant. -/
inductive Test where
  | eq
  | gt
  | ge
  | set
deriving DecidableEq, Repr

def Test.holds : Test → BitVec 32 → BitVec 32 → Bool
  | eq, a, k => a == k
  | gt, a, k => k < a
  | ge, a, k => k ≤ a
  | set, a, k => a &&& k != 0

inductive Op where
  | load (width : Width)
  | loadIndexed (width : Width)
  | loadHeaderLength
  | jump (test : Test)
  | ret
deriving DecidableEq, Repr

def opcodes : List (BitVec 16 × Op) :=
  [(0x20, .load .word), (0x28, .load .half), (0x30, .load .byte), (0x40, .loadIndexed .word),
    (0x48, .loadIndexed .half), (0x50, .loadIndexed .byte), (0xb1, .loadHeaderLength), (0x15, .jump .eq),
    (0x25, .jump .gt), (0x35, .jump .ge), (0x45, .jump .set), (0x06, .ret)]

def Insn.op (insn : Insn) : Option Op := opcodes.lookup insn.code

/-- The number some octets of a packet spell in network order. -/
def fetch (packet : List (BitVec 8)) (offset : ℕ) (width : Width) : Option (BitVec 32) :=
  if offset + width.octets ≤ packet.length then
    some (((packet.drop offset).take width.octets).foldl (fun value octet => value <<< 8 ||| octet.setWidth 32) 0)
  else none

/-- What a program returns that first goes over so many instructions, or nothing if it runs off its end or
has an instruction that is not known. -/
def run (packet : List (BitVec 8)) : List Insn → ℕ → BitVec 32 → BitVec 32 → Option (BitVec 32)
  | [], _, _, _ => none
  | _ :: rest, skip + 1, a, x => run packet rest skip a x
  | insn :: rest, 0, a, x =>
    match insn.op with
    | none => none
    | some (.load width) => (fetch packet insn.k.toNat width).elim (some 0) fun value => run packet rest 0 value x
    | some (.loadIndexed width) =>
      (fetch packet (x.toNat + insn.k.toNat) width).elim (some 0) fun value => run packet rest 0 value x
    | some .loadHeaderLength =>
      (fetch packet insn.k.toNat .byte).elim (some 0) fun value => run packet rest 0 a (4 * (value &&& 0xf))
    | some (.jump test) =>
      run packet rest (if test.holds a insn.k then insn.jt.toNat else insn.jf.toNat) a x
    | some .ret => some insn.k

/-- A program is taken whole if every instruction is known and none leads past the last. -/
def closed : List Insn → Bool
  | [] => true
  | insn :: rest =>
    closed rest &&
      match insn.op with
      | none => false
      | some (.jump _) => decide (insn.jt.toNat < rest.length) && decide (insn.jf.toNat < rest.length)
      | some .ret => true
      | some _ => !rest.isEmpty

theorem isSome_elim {value : Option (BitVec 32)} {more : BitVec 32 → Option (BitVec 32)}
    (returns : ∀ v, (more v).isSome = true) : (value.elim (some 0) more).isSome = true := by
  cases value with
  | none => rfl
  | some v => exact returns v

/-- Such a program always returns. -/
theorem run_isSome (packet : List (BitVec 8)) {program : List Insn} (whole : closed program = true) {skip : ℕ}
    (inside : skip < program.length) (a x : BitVec 32) : (run packet program skip a x).isSome = true := by
  induction program generalizing skip a x with
  | nil => cases inside
  | cons insn rest ih =>
    obtain ⟨later, here⟩ := Bool.and_eq_true_iff.mp whole
    cases skip with
    | succ skip =>
      rw [run]
      exact ih later (Nat.lt_of_succ_lt_succ inside) a x
    | zero =>
      have follows (filled : (!rest.isEmpty) = true) : 0 < rest.length := by
        cases rest with
        | nil => cases filled
        | cons next more => exact Nat.succ_pos _
      rw [run]
      cases op : insn.op with
      | none =>
        rw [op] at here
        cases here
      | some kind =>
        rw [op] at here
        cases kind with
        | load width => exact isSome_elim fun value => ih later (follows here) value x
        | loadIndexed width => exact isSome_elim fun value => ih later (follows here) value x
        | loadHeaderLength => exact isSome_elim fun value => ih later (follows here) a _
        | jump test =>
          obtain ⟨holds, fails⟩ := Bool.and_eq_true_iff.mp here
          apply ih later
          split_ifs
          · exact of_decide_eq_true holds
          · exact of_decide_eq_true fails
        | ret => rfl

section Rules

variable {packet : List (BitVec 8)} {insn : Insn} {rest : List Insn} {a x : BitVec 32}

/-- A packet is kept, whole or in part. -/
def Passes (packet : List (BitVec 8)) (program : List Insn) (skip : ℕ) (a x : BitVec 32) : Prop :=
  ∃ kept, run packet program skip a x = some kept ∧ kept ≠ 0

def Accepts (program : List Insn) (packet : List (BitVec 8)) : Prop := Passes packet program 0 0 0

theorem passes_ret (op : insn.op = some .ret) : Passes packet (insn :: rest) 0 a x ↔ insn.k ≠ 0 := by
  rw [Passes, run, op]
  simp

theorem passes_jump {test : Test} (op : insn.op = some (.jump test)) : Passes packet (insn :: rest) 0 a x ↔
    Passes packet rest (if test.holds a insn.k then insn.jt.toNat else insn.jf.toNat) a x := by
  rw [Passes, run, op, Passes]

theorem passes_jump_of_holds {test : Test} (op : insn.op = some (.jump test)) (holds : test.holds a insn.k = true) :
    Passes packet (insn :: rest) 0 a x ↔ Passes packet rest insn.jt.toNat a x := by
  rw [passes_jump op, if_pos holds]

theorem passes_jump_of_fails {test : Test} (op : insn.op = some (.jump test)) (fails : test.holds a insn.k = false) :
    Passes packet (insn :: rest) 0 a x ↔ Passes packet rest insn.jf.toNat a x := by
  rw [passes_jump op, if_neg (Bool.eq_false_iff.mp fails)]

theorem passes_fetch {value : Option (BitVec 32)} {more : BitVec 32 → Option (BitVec 32)} :
    (∃ kept, value.elim (some 0) more = some kept ∧ kept ≠ 0) ↔
      ∃ v, value = some v ∧ ∃ kept, more v = some kept ∧ kept ≠ 0 := by
  cases value with
  | none => simp
  | some v => simp

theorem passes_load {width : Width} (op : insn.op = some (.load width)) : Passes packet (insn :: rest) 0 a x ↔
    ∃ value, fetch packet insn.k.toNat width = some value ∧ Passes packet rest 0 value x := by
  rw [Passes, run, op]
  exact passes_fetch

theorem passes_loadIndexed {width : Width} (op : insn.op = some (.loadIndexed width)) :
    Passes packet (insn :: rest) 0 a x ↔
      ∃ value, fetch packet (x.toNat + insn.k.toNat) width = some value ∧ Passes packet rest 0 value x := by
  rw [Passes, run, op]
  exact passes_fetch

theorem passes_loadHeaderLength (op : insn.op = some .loadHeaderLength) : Passes packet (insn :: rest) 0 a x ↔
    ∃ value, fetch packet insn.k.toNat .byte = some value ∧ Passes packet rest 0 a (4 * (value &&& 0xf)) := by
  rw [Passes, run, op]
  exact passes_fetch

end Rules

end Bpf
