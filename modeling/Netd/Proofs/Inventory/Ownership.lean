import Netd.Model.Inventory

/-! # What netd may change in the registry

Ownership is by key. Beside a registry that answers whatever it likes, a list of the calls that netd made to
change it is kept; every call in it is one that netd may make, and a `Status` key that netd made is
protected before anything else is done.
-/

namespace Netd.Model.Inventory

open Registry (RegValue)
open Stateful (Ensures Gives Keeps)

variable {σ : Type}

/-- A call that changes the registry, and for a key what it was told. -/
inductive Act where
  | created (key : Path) (answer : Option Disposition)
  | secured (key : Path) (sddl : String)
  | set (key : Path) (name : String) (value : RegValue)
  | deleted (key : Path) (name : String)
deriving DecidableEq, Repr

/-- The same registry, with a list of what it was asked to change. -/
def recording (hive : Hive σ) : Hive (σ × List Act) where
  create key := fun (s, log) =>
    let (answer, s) := (hive.create key).run s
    (answer, s, log ++ [.created key answer])
  setSecurity key sddl := fun (s, log) =>
    let (answer, s) := (hive.setSecurity key sddl).run s
    (answer, s, log ++ [.secured key sddl])
  queryValue key name := fun (s, log) =>
    let (answer, s) := (hive.queryValue key name).run s
    (answer, s, log)
  setValue key name value := fun (s, log) =>
    let (answer, s) := (hive.setValue key name value).run s
    (answer, s, log ++ [.set key name value])
  deleteValue key name := fun (s, log) =>
    let (answer, s) := (hive.deleteValue key name).run s
    (answer, s, log ++ [.deleted key name])

/-! ## Ownership -/

/-- The keys whose entries netd keeps a `Status` for. -/
inductive Group : String → Prop where
  | interfaces : Group "Interfaces"
  | networks : Group "Networks"

/-- A `Status` key, which only netd writes. -/
inductive StatusKey : Path → Prop where
  | of {group : String} (known : Group group) (name : String) : StatusKey [networkKeyName, group, name, "Status"]

/-- A key on the way to a `Status` key, that key included. -/
def OnWay (key : Path) : Prop := key ≠ [] ∧ ∃ status, StatusKey status ∧ key <+: status

/-- The values that netd writes beside the operator. -/
inductive Shared : Path → String → RegValue → Prop where
  | duid (octets : Bytes) : Shared [networkKeyName] "Duid" ⟨.sz, asBytes (formatHex octets) ++ [0]⟩
  | readiness (level : Wire.Level) : Shared [networkKeyName] "Readiness" ⟨.sz, asBytes level.asStr ++ [0]⟩
  | clientId (ifid : String) (octets : Bytes) :
      Shared [networkKeyName, "Interfaces", ifid] "ClientId" ⟨.sz, asBytes (formatHex octets) ++ [0]⟩
  | requestedAddress (id : String) (address : Ipv4Addr) :
      Shared [networkKeyName, "Networks", id] "RequestedAddress" ⟨.sz, asBytes (Ipv4Addr.display address) ++ [0]⟩

/-- What netd may ask for. -/
inductive Owned : Act → Prop where
  | created {key : Path} (way : OnWay key) (answer : Option Disposition) : Owned (.created key answer)
  | secured {key : Path} (status : StatusKey key) : Owned (.secured key statusSddl)
  | set {key : Path} (status : StatusKey key) (name : String) (value : RegValue) : Owned (.set key name value)
  | shared {key : Path} {name : String} {value : RegValue} (shared : Shared key name value) :
      Owned (.set key name value)
  | deleted {key : Path} (status : StatusKey key) (name : String) : Owned (.deleted key name)

/-- A `Status` key that is new is protected by the next call. -/
def Guarded (log : List Act) : Prop :=
  ∀ (index : ℕ) (key : Path), log[index]? = some (.created key (some .createdNew)) → StatusKey key →
    log[index + 1]? = some (.secured key statusSddl)

structure Sound (log : List Act) : Prop where
  owned : ∀ act ∈ log, Owned act
  guarded : Guarded log

theorem Guarded.append {log more : List Act} (first : Guarded log) (second : Guarded more) :
    Guarded (log ++ more) := by
  intro index key made status
  by_cases inside : index < log.length
  · rw [List.getElem?_append_left inside] at made
    have next := first index key made status
    obtain ⟨within, -⟩ := List.getElem?_eq_some_iff.mp next
    rw [List.getElem?_append_left within, next]
  · rw [List.getElem?_append_right (by omega)] at made
    rw [List.getElem?_append_right (by omega), show index + 1 - log.length = index - log.length + 1 by omega]
    exact second _ key made status

theorem Sound.append {log more : List Act} (first : Sound log) (second : Sound more) : Sound (log ++ more) where
  owned act member := (List.mem_append.mp member).elim (first.owned act) (second.owned act)
  guarded := first.guarded.append second.guarded

theorem Sound.one {act : Act} (owned : Owned act)
    (other : ∀ key, act = .created key (some .createdNew) → ¬StatusKey key) : Sound [act] where
  owned := List.forall_mem_singleton.mpr owned
  guarded index key made status := by
    have same := List.mem_singleton.mp (List.mem_of_getElem? made)
    exact absurd status (other key same.symm)

/-- A `Status` key is two levels below the key that holds its group. -/
theorem StatusKey.length {key : Path} (status : StatusKey key) : key.length = 4 := by
  cases status with
  | of known name => rfl

theorem onWay_take {group : String} (known : Group group) (name : String) (levels : ℕ) (some : 0 < levels) :
    OnWay ([networkKeyName, group, name, "Status"].take levels) := by
  refine ⟨fun empty => ?_, _, .of known name, List.take_prefix levels _⟩
  have length := congrArg List.length empty
  rw [List.length_take] at length
  simp only [List.length_cons, List.length_nil] at length
  omega

/-! ## Every call keeps to it -/

section Calls

variable (hive : Hive σ)

/-- The invariant of the list beside the registry. -/
def Kept (s : σ × List Act) : Prop := Sound s.2

theorem create_kept {key : Path} (way : OnWay key) (short : key.length < 4) :
    Keeps Kept ((recording hive).create key) := by
  intro s sound
  refine Sound.append sound (.one (.created way _) fun other same status => ?_)
  obtain ⟨rfl, -⟩ := Act.created.inj same
  have := status.length
  omega

theorem query_kept (key : Path) (name : String) : Keeps Kept ((recording hive).queryValue key name) :=
  fun _ sound => sound

theorem set_kept {key : Path} {name : String} {value : RegValue} (owned : Owned (.set key name value)) :
    Keeps Kept ((recording hive).setValue key name value) := by
  intro s sound
  refine Sound.append sound (.one owned fun other same => ?_)
  cases same

theorem delete_kept {key : Path} (status : StatusKey key) (name : String) :
    Keeps Kept ((recording hive).deleteValue key name) := by
  intro s sound
  refine Sound.append sound (.one (.deleted status name) fun other same => ?_)
  cases same

/-! ## Keys -/

theorem openOrCreate_kept (parent : Option Path) (name : String) (way : OnWay (parent.getD [] ++ [name]))
    (short : (parent.getD [] ++ [name]).length < 4) :
    Gives Kept (openOrCreate (recording hive) parent name) fun opened => opened.1 = parent.getD [] ++ [name] := by
  refine (create_kept hive way short).bind fun answer => ?_
  cases answer with
  | none => exact Gives.none
  | some disposition => exact Gives.some rfl

theorem networkKey_kept : Gives Kept (networkKey (recording hive)) (· = [networkKeyName]) := by
  have way : OnWay [networkKeyName] := onWay_take .interfaces "" 1 (by omega)
  exact Gives.map (openOrCreate_kept hive none networkKeyName way (by decide)) fun _ same => same

theorem entryKey_kept {group : String} (known : Group group) (name : String) :
    Gives Kept (entryKey (recording hive) group name) (· = [networkKeyName, group, name]) := by
  have groupWay : OnWay [networkKeyName, group] := onWay_take known name 2 (by omega)
  have entryWay : OnWay [networkKeyName, group, name] := onWay_take known name 3 (by omega)
  refine (networkKey_kept hive).bind Gives.none ?_
  rintro _ rfl
  refine (openOrCreate_kept hive (some [networkKeyName]) group groupWay (by simp)).bind Gives.none ?_
  rintro ⟨_, disposition⟩ rfl
  exact Gives.map (openOrCreate_kept hive (some [networkKeyName, group]) name entryWay (by simp)) fun _ same => same

/-- Between making a `Status` key and protecting it. -/
def Unprotected (key : Path) (s : σ × List Act) : Prop :=
  ∃ log, Sound log ∧ s.2 = log ++ [.created key (some .createdNew)]

/-- How opening a `Status` key leaves the list. -/
def Opened (key : Path) : Option (Path × Disposition) → σ × List Act → Prop
  | none, s => Kept s
  | some (opened, .openedExisting), s => opened = key ∧ Kept s
  | some (opened, .createdNew), s => opened = key ∧ Unprotected key s

theorem openStatus_opened (parent : Path) (status : StatusKey (parent ++ ["Status"])) :
    Ensures Kept (openOrCreate (recording hive) (some parent) "Status") (Opened (parent ++ ["Status"])) := by
  intro s sound
  have way : OnWay (parent ++ ["Status"]) := ⟨by simp, _, status, List.prefix_rfl⟩
  have plain {answer : Option Disposition} (old : answer ≠ some .createdNew) :
      Sound (s.2 ++ [.created (parent ++ ["Status"]) answer]) := by
    refine Sound.append sound (.one (.created way answer) ?_)
    rintro key same -
    exact old (Act.created.inj same).2
  let created := (hive.create (parent ++ ["Status"])).run s.1
  change Opened _ (created.1.map _) (created.2, s.2 ++ [.created _ created.1])
  cases created.1 with
  | none => exact plain nofun
  | some disposition =>
    cases disposition with
    | createdNew => exact ⟨rfl, s.2, sound, rfl⟩
    | openedExisting => exact ⟨rfl, plain nofun⟩

theorem setSecurity_kept {key : Path} (status : StatusKey key) :
    Ensures (Unprotected key) ((recording hive).setSecurity key statusSddl) fun _ s => Kept s := by
  rintro ⟨s, _⟩ ⟨log, sound, rfl⟩
  have way : OnWay key := ⟨by cases status; simp, key, status, List.prefix_rfl⟩
  have made : Owned (.created key (some .createdNew)) := .created way _
  have pair : Sound [.created key (some .createdNew), .secured key statusSddl] := by
    refine ⟨by simp [made, Owned.secured status], ?_⟩
    rintro (_ | index) other found -
    · obtain ⟨rfl, -⟩ := Act.created.inj (Option.some.inj found)
      rfl
    · cases List.mem_singleton.mp (List.mem_of_getElem? found)
  have after := Sound.append sound pair
  rwa [← List.singleton_append, ← List.append_assoc] at after

theorem statusKey_kept {group : String} (known : Group group) (name : String) :
    Gives Kept (statusKey (recording hive) [networkKeyName, group, name]) StatusKey := by
  have status : StatusKey [networkKeyName, group, name, "Status"] := .of known name
  refine (openStatus_opened hive [networkKeyName, group, name] status).bind ?_
  rintro (_ | ⟨key, _ | _⟩)
  · exact Gives.none
  · rintro s ⟨rfl, unprotected⟩
    exact ((setSecurity_kept hive status).bind fun _ => Gives.some status) s unprotected
  · rintro s ⟨rfl, kept⟩
    exact Gives.some status s kept

/-! ## Values -/

theorem current_kept (key : Path) (name : String) : Keeps Kept (current (recording hive) key name) :=
  (query_kept hive key name).bind fun _ => Keeps.pure _

theorem setSz_kept {key : Path} {name value : String} (owned : Owned (.set key name ⟨.sz, asBytes value ++ [0]⟩)) :
    Keeps Kept (setSz (recording hive) key name value) := by
  refine (current_kept hive key name).bind fun stated => ?_
  split_ifs
  · exact Keeps.pure _
  · exact (set_kept hive owned).bind fun _ => Keeps.pure _

theorem setEntry_kept {key : Path} (status : StatusKey key) (entry : String × Entry) :
    Keeps Kept (setEntry (recording hive) key entry) := by
  obtain ⟨name, value | values⟩ := entry
  · cases value with
    | some value => exact setSz_kept hive (.set status name _)
    | none =>
      refine (current_kept hive key name).bind fun stated => ?_
      split_ifs
      · exact (delete_kept hive status name).bind fun _ => Keeps.pure _
      · exact Keeps.pure _
  · refine (query_kept hive key name).bind fun stated => ?_
    split_ifs
    · exact Keeps.pure _
    · exact (set_kept hive (.set status name _)).bind fun _ => Keeps.pure _

theorem setEntries_kept {key : Path} (status : StatusKey key) (entries : List (String × Entry)) :
    Keeps Kept (entries.forM (setEntry (recording hive) key)) :=
  Keeps.forM fun entry _ => setEntry_kept hive status entry

/-! ## Operations -/

theorem sync_kept (record : InterfaceRecord) : Keeps Kept (sync (recording hive) record) := by
  refine (entryKey_kept hive .interfaces record.ifid).bind (Keeps.pure _) ?_
  rintro _ rfl
  refine (statusKey_kept hive .interfaces record.ifid).bind (Keeps.pure _) fun status isStatus => ?_
  refine (setEntries_kept hive isStatus record.entries).bind fun _ => ?_
  cases record.network with
  | none => exact Keeps.pure _
  | some network => exact setSz_kept hive (.set isStatus _ _)

theorem clientId_kept (ifid : String) (generated : Bytes) : Keeps Kept (clientId (recording hive) ifid generated) := by
  refine (entryKey_kept hive .interfaces ifid).bind (Keeps.pure _) ?_
  rintro _ rfl
  refine (current_kept hive _ _).bind fun stated => ?_
  cases stated.bind Registry.parseHex with
  | some id => exact Keeps.pure _
  | none => exact (setSz_kept hive (.shared (.clientId ifid generated))).bind fun _ => Keeps.pure _

theorem lastNetwork_kept (ifid : String) : Keeps Kept (lastNetwork (recording hive) ifid) := by
  refine (entryKey_kept hive .interfaces ifid).bind (Keeps.pure _) ?_
  rintro _ rfl
  refine (statusKey_kept hive .interfaces ifid).bind (Keeps.pure _) fun status _ => ?_
  exact (current_kept hive status _).bind fun _ => Keeps.pure _

theorem duid_kept (configured : Option Bytes) (generated : Bytes) :
    Keeps Kept (duid (recording hive) configured generated) := by
  cases configured with
  | some duid => exact Keeps.pure _
  | none =>
    refine (networkKey_kept hive).bind (Keeps.pure _) ?_
    rintro _ rfl
    exact (setSz_kept hive (.shared (.duid generated))).bind fun _ => Keeps.pure _

theorem machineReadiness_kept (level : Wire.Level) : Keeps Kept (machineReadiness (recording hive) level) := by
  refine (networkKey_kept hive).bind (Keeps.pure _) ?_
  rintro _ rfl
  exact setSz_kept hive (.shared (.readiness level))

theorem networkSync_kept (id : String) (signals : Networks.Signals) (lastInterface : String) (nowSecs : ℤ) :
    Keeps Kept (networkSync (recording hive) id signals lastInterface nowSecs) := by
  refine (entryKey_kept hive .networks id).bind (Keeps.pure _) ?_
  rintro _ rfl
  refine (current_kept hive _ _).bind fun name => (current_kept hive _ _).bind fun trust =>
    (current_kept hive _ _).bind fun requested => ?_
  refine (statusKey_kept hive .networks id).bind (Keeps.pure _) fun status isStatus => ?_
  exact (setEntries_kept hive isStatus _).bind fun _ => Keeps.pure _

theorem requestedAddress_kept (id : String) : Keeps Kept (requestedAddress (recording hive) id) := by
  refine (entryKey_kept hive .networks id).bind (Keeps.pure _) ?_
  rintro _ rfl
  exact (current_kept hive _ _).bind fun _ => Keeps.pure _

theorem setRequestedAddress_kept (id : String) (address : Ipv4Addr) :
    Keeps Kept (setRequestedAddress (recording hive) id address) := by
  refine (entryKey_kept hive .networks id).bind (Keeps.pure _) ?_
  rintro _ rfl
  exact setSz_kept hive (.shared (.requestedAddress id address))

theorem perform_kept (op : Op) : Keeps Kept (perform (recording hive) op) := by
  cases op with
  | sync record => exact (sync_kept hive record).map _
  | clientId ifid generated => exact (clientId_kept hive ifid generated).map _
  | lastNetwork ifid => exact (lastNetwork_kept hive ifid).map _
  | duid configured generated => exact (duid_kept hive configured generated).map _
  | machineReadiness level => exact (machineReadiness_kept hive level).map _
  | networkSync id signals lastInterface nowSecs => exact (networkSync_kept hive id signals lastInterface nowSecs).map _
  | requestedAddress id => exact (requestedAddress_kept hive id).map _
  | setRequestedAddress id address => exact (setRequestedAddress_kept hive id address).map _

end Calls

end Netd.Model.Inventory
