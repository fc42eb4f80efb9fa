import Inet.Common.Basic

/-!
# The address table of an Ethernet switch

`MACAddressTable` has a table of addresses for each VLAN, in the map `vlanAddressTable`. The map
holds pointers, and the table of VLAN 0 is reached through another pointer as well. `WellFormed`
says that this does no harm: the two pointers agree, and no VLANs share a table. Then every
operation is described by what it does to `find`, the entry of an address in a VLAN.
-/

namespace Inet.Ethernet

/-- An EUI-48, or an EUI-64 if `macAddress64` is set. -/
structure MACAddress where
  address : ℕ
  macAddress64 : Bool := false

def MACAddress.isBroadcast (a : MACAddress) : Bool :=
  if a.macAddress64 then a.address == 0xffffffffffffffff else a.address == 0xffffffffffff

/-- `MACAddressTable::AddressEntry`. -/
structure AddressEntry where
  vid : ℕ
  portno : ℤ
  insertionTime : ℚ

/-- The keys are compared by `address` alone. -/
abbrev AddressTable := Std.TreeMap ℕ AddressEntry

/-- A table with the objects that its pointers lead to. -/
structure MACAddressTable where
  agingTime : ℚ
  lastPurge : ℚ
  /-- The pointer to the table of VLAN 0. -/
  addressTable : Option ℕ
  vlanAddressTable : Std.TreeMap ℕ ℕ
  /-- The tables that have been made by `new`, of which there are `allocated`. -/
  tables : ℕ → AddressTable
  allocated : ℕ

namespace MACAddressTable

/-- The table after the constructor and `initialize`. -/
def initial (agingTime : ℚ) : MACAddressTable where
  agingTime := agingTime
  lastPurge := 0
  addressTable := some 0
  vlanAddressTable := (∅ : Std.TreeMap ℕ ℕ).insert 0 0
  tables := fun _ => ∅
  allocated := 1

def getTableForVid (s : MACAddressTable) (vid : ℕ) : Option ℕ :=
  if vid = 0 then s.addressTable else s.vlanAddressTable[vid]?

/-- Changes the table that a pointer leads to. -/
def modify (s : MACAddressTable) (p : ℕ) (f : AddressTable → AddressTable) : MACAddressTable :=
  { s with tables := Function.update s.tables p (f (s.tables p)) }

/-- `for (auto & elem : vlanAddressTable)`, with a body that changes the table `elem.second`. -/
def forEachTable (s : MACAddressTable) (f : AddressTable → AddressTable) : MACAddressTable :=
  s.vlanAddressTable.toList.foldl (fun s elem => s.modify elem.2 f) s

/-- The condition under which an entry is thrown out. -/
def Aged (agingTime now : ℚ) (entry : AddressEntry) : Prop :=
  entry.insertionTime + agingTime ≤ now
deriving Decidable

/-- The loop that erases the aged entries of one table. -/
def withoutAged (agingTime now : ℚ) (table : AddressTable) : AddressTable :=
  table.filter fun _ entry => !decide (Aged agingTime now entry)

def getPortForAddress (s : MACAddressTable) (now : ℚ) (address : MACAddress) (vid : ℕ) :
    ℤ × MACAddressTable :=
  match s.getTableForVid vid with
  | none => (-1, s)
  | some table =>
    match (s.tables table)[address.address]? with
    | none => (-1, s)
    | some entry =>
      if Aged s.agingTime now entry then
        (-1, s.modify table (·.erase address.address))
      else (entry.portno, s)

def removeAgedEntriesFromVlan (s : MACAddressTable) (now : ℚ) (vid : ℕ) : MACAddressTable :=
  match s.getTableForVid vid with
  | none => s
  | some table => s.modify table (withoutAged s.agingTime now)

def removeAgedEntriesFromAllVlans (s : MACAddressTable) (now : ℚ) : MACAddressTable :=
  s.forEachTable (withoutAged s.agingTime now)

def removeAgedEntriesIfNeeded (s : MACAddressTable) (now : ℚ) : MACAddressTable :=
  let s := if s.lastPurge + 1 ≤ now then s.removeAgedEntriesFromAllVlans now else s
  { s with lastPurge := now }

/-- `table = new AddressTable()`, with the new table put into the maps. -/
def newTable (s : MACAddressTable) (vid : ℕ) : ℕ × MACAddressTable :=
  (s.allocated, { s with
      tables := Function.update s.tables s.allocated ∅
      allocated := s.allocated + 1
      addressTable := if vid = 0 then some s.allocated else s.addressTable
      vlanAddressTable := s.vlanAddressTable.insert vid s.allocated })

/-- The Boolean tells whether an entry has been refreshed. -/
def updateTableWithAddress (s : MACAddressTable) (now : ℚ) (portno : ℤ) (address : MACAddress)
    (vid : ℕ) : Bool × MACAddressTable :=
  if address.isBroadcast then (false, s)
  else
    let (table, iter, s) := match s.getTableForVid vid with
      | none => let (table, s) := s.newTable vid; (table, none, s)
      | some table => (table, (s.tables table)[address.address]?, s)
    match iter with
    | none =>
      let s := s.removeAgedEntriesIfNeeded now
      (false, s.modify table (·.insert address.address ⟨vid, portno, now⟩))
    | some entry =>
      (true, s.modify table
        (·.insert address.address { entry with insertionTime := now, portno := portno }))

def flush (s : MACAddressTable) (portno : ℤ) : MACAddressTable :=
  s.forEachTable fun table => table.filter fun _ entry => entry.portno != portno

def copyTable (s : MACAddressTable) (portA portB : ℤ) : MACAddressTable :=
  s.forEachTable fun table => table.map fun _ entry =>
    if entry.portno = portA then { entry with portno := portB } else entry

/-! ## The entries -/

/-- The entry of an address in a VLAN. -/
def find (s : MACAddressTable) (vid a : ℕ) : Option AddressEntry :=
  (s.getTableForVid vid).bind fun table => (s.tables table)[a]?

/-- Both pointers to the table of VLAN 0 agree, and each VLAN has a table of its own. -/
structure WellFormed (s : MACAddressTable) : Prop where
  addressTable_eq : s.addressTable = s.vlanAddressTable[0]?
  lt_allocated : ∀ {vid table : ℕ}, s.vlanAddressTable[vid]? = some table → table < s.allocated
  vid_unique : ∀ {v w table : ℕ}, s.vlanAddressTable[v]? = some table →
    s.vlanAddressTable[w]? = some table → v = w

variable {s : MACAddressTable} {now : ℚ} {vid a : ℕ} {f : AddressTable → AddressTable}

theorem wellFormed_initial (agingTime : ℚ) : (initial agingTime).WellFormed := by
  have hvlan : ∀ vid : ℕ, (initial agingTime).vlanAddressTable[vid]? =
      if 0 = vid then some 0 else none := by
    intro vid
    simp only [initial, Std.TreeMap.getElem?_insert, Std.compare_eq_iff_eq]
    simp
  refine ⟨(hvlan 0).symm, fun {vid table} h => ?_, fun {v w table} hv hw => ?_⟩
  · rw [hvlan] at h
    split_ifs at h
    cases h
    exact Nat.one_pos
  · rw [hvlan] at hv hw
    split_ifs at hv hw with hv' hw'
    exact hv'.symm.trans hw'

theorem WellFormed.getTableForVid_eq (h : s.WellFormed) (vid : ℕ) :
    s.getTableForVid vid = s.vlanAddressTable[vid]? := by
  rw [getTableForVid]
  split_ifs with hvid
  · rw [hvid, h.addressTable_eq]
  · rfl

/-- Only what the pointers lead to has changed. -/
structure SamePointers (s t : MACAddressTable) : Prop where
  agingTime : t.agingTime = s.agingTime
  addressTable : t.addressTable = s.addressTable
  vlanAddressTable : t.vlanAddressTable = s.vlanAddressTable
  allocated : t.allocated = s.allocated

theorem SamePointers.wellFormed {t : MACAddressTable} (h : SamePointers s t) (hs : s.WellFormed) :
    t.WellFormed := by
  obtain ⟨-, haddress, hvlan, hallocated⟩ := h
  refine ⟨?_, ?_, ?_⟩
  · rw [haddress, hvlan, hs.addressTable_eq]
  · intro vid table htable
    rw [hvlan] at htable
    rw [hallocated]
    exact hs.lt_allocated htable
  · intro v w table hv hw
    rw [hvlan] at hv hw
    exact hs.vid_unique hv hw

theorem SamePointers.getTableForVid {t : MACAddressTable} (h : SamePointers s t) (vid : ℕ) :
    t.getTableForVid vid = s.getTableForVid vid := by
  rw [MACAddressTable.getTableForVid, MACAddressTable.getTableForVid, h.addressTable,
    h.vlanAddressTable]

theorem SamePointers.trans {t u : MACAddressTable} (h : SamePointers s t) (h' : SamePointers t u) :
    SamePointers s u :=
  ⟨h'.agingTime.trans h.agingTime, h'.addressTable.trans h.addressTable,
    h'.vlanAddressTable.trans h.vlanAddressTable, h'.allocated.trans h.allocated⟩

theorem samePointers_modify (s : MACAddressTable) (p : ℕ) (f : AddressTable → AddressTable) :
    SamePointers s (s.modify p f) := ⟨rfl, rfl, rfl, rfl⟩

theorem modify_tables (s : MACAddressTable) (p q : ℕ) (f : AddressTable → AddressTable) :
    (s.modify p f).tables q = if q = p then f (s.tables p) else s.tables q := by
  simp only [modify, Function.update_apply]

theorem foldl_modify (elems : List (ℕ × ℕ)) (hnodup : (elems.map Prod.snd).Nodup) (s) :
    SamePointers s (elems.foldl (fun s elem => s.modify elem.2 f) s) ∧
    ∀ p, (elems.foldl (fun s elem => s.modify elem.2 f) s).tables p =
      if p ∈ elems.map Prod.snd then f (s.tables p) else s.tables p := by
  induction elems generalizing s with
  | nil => exact ⟨⟨rfl, rfl, rfl, rfl⟩, fun p => by simp⟩
  | cons elem elems ih =>
    obtain ⟨hfresh, hnodup⟩ := List.nodup_cons.mp hnodup
    obtain ⟨hsame, htables⟩ := ih hnodup (s.modify elem.2 f)
    refine ⟨(s.samePointers_modify elem.2 f).trans hsame, fun p => ?_⟩
    rw [List.foldl_cons, htables]
    simp only [List.map_cons, List.mem_cons]
    by_cases hp : p = elem.2
    · subst hp
      rw [if_neg hfresh, if_pos (.inl rfl), modify_tables, if_pos rfl]
    · simp only [modify_tables, hp, if_false, false_or]

/-- A loop over the tables changes each of them once. -/
theorem WellFormed.forEachTable (h : s.WellFormed) (f : AddressTable → AddressTable) :
    SamePointers s (s.forEachTable f) ∧
    ∀ vid a, (s.forEachTable f).find vid a =
      (s.getTableForVid vid).bind fun table => (f (s.tables table))[a]? := by
  have hnodup : (s.vlanAddressTable.toList.map Prod.snd).Nodup := by
    rw [List.Nodup, List.pairwise_map]
    refine List.Pairwise.imp_of_mem (fun {x y} hx hy hne heq => hne ?_)
      Std.TreeMap.distinct_keys_toList
    rw [Std.compare_eq_iff_eq]
    refine h.vid_unique (Std.TreeMap.mem_toList_iff_getElem?_eq_some.mp hx) ?_
    rw [heq]
    exact Std.TreeMap.mem_toList_iff_getElem?_eq_some.mp hy
  obtain ⟨hsame, htables⟩ := foldl_modify (f := f) s.vlanAddressTable.toList hnodup s
  refine ⟨hsame, fun vid a => ?_⟩
  rw [find, MACAddressTable.forEachTable, hsame.getTableForVid, h.getTableForVid_eq]
  refine Option.bind_congr fun table htable => ?_
  rw [htables, if_pos]
  exact List.mem_map.mpr ⟨(vid, table), Std.TreeMap.mem_toList_iff_getElem?_eq_some.mpr htable, rfl⟩

theorem WellFormed.find_modify (h : s.WellFormed) {v table : ℕ}
    (hv : s.getTableForVid v = some table) (vid a : ℕ) :
    (s.modify table f).find vid a = if vid = v then (f (s.tables table))[a]? else s.find vid a := by
  rw [find, (s.samePointers_modify table f).getTableForVid]
  split_ifs with hvid
  · subst hvid
    rw [hv, Option.bind_some, modify_tables, if_pos rfl]
  · rw [find]
    refine Option.bind_congr fun table' htable' => ?_
    rw [h.getTableForVid_eq] at hv htable'
    rw [modify_tables, if_neg]
    rintro rfl
    exact hvid (h.vid_unique htable' hv)

/-! ## What the operations do to the entries -/

theorem getElem?_filter {table : AddressTable} {p : AddressEntry → Bool} :
    (table.filter fun _ entry => p entry)[a]? = table[a]?.filter p := by
  rw [Std.TreeMap.getElem?_filter']

theorem WellFormed.find_flush (h : s.WellFormed) (portno : ℤ) (vid a : ℕ) :
    (s.flush portno).find vid a = (s.find vid a).filter fun entry => entry.portno != portno := by
  rw [flush, (h.forEachTable _).2, find]
  simp only [getElem?_filter]
  cases s.getTableForVid vid <;> rfl

theorem WellFormed.find_copyTable (h : s.WellFormed) (portA portB : ℤ) (vid a : ℕ) :
    (s.copyTable portA portB).find vid a = (s.find vid a).map fun entry =>
      if entry.portno = portA then { entry with portno := portB } else entry := by
  rw [copyTable, (h.forEachTable _).2, find]
  simp only [Std.TreeMap.getElem?_map]
  cases s.getTableForVid vid <;> rfl

/-- Nothing but aged entries is lost, and nothing else changes. -/
structure Purged (now : ℚ) (s t : MACAddressTable) : Prop where
  wellFormed : t.WellFormed
  agingTime : t.agingTime = s.agingTime
  find : ∀ vid a, t.find vid a = s.find vid a ∨
    t.find vid a = none ∧ ∃ entry, s.find vid a = some entry ∧ Aged s.agingTime now entry

theorem Purged.refl (h : s.WellFormed) : Purged now s s := ⟨h, rfl, fun _ _ => .inl rfl⟩

theorem withoutAged_cases (agingTime now : ℚ) (table : AddressTable) (a : ℕ) :
    (withoutAged agingTime now table)[a]? = table[a]? ∨
      (withoutAged agingTime now table)[a]? = none ∧
        ∃ entry, table[a]? = some entry ∧ Aged agingTime now entry := by
  rw [withoutAged, getElem?_filter]
  cases table[a]? with
  | none => exact .inl rfl
  | some entry =>
    by_cases haged : Aged agingTime now entry
    · exact .inr ⟨by simp [haged], entry, rfl, haged⟩
    · exact .inl (by simp [haged])

theorem WellFormed.purged_removeAgedEntriesFromAllVlans (h : s.WellFormed) (now : ℚ) :
    Purged now s (s.removeAgedEntriesFromAllVlans now) := by
  obtain ⟨hsame, hfind⟩ := h.forEachTable (withoutAged s.agingTime now)
  refine ⟨hsame.wellFormed h, hsame.agingTime, fun vid a => ?_⟩
  rw [removeAgedEntriesFromAllVlans, hfind, MACAddressTable.find]
  cases s.getTableForVid vid with
  | none => exact .inl rfl
  | some table => exact withoutAged_cases s.agingTime now (s.tables table) a

theorem WellFormed.purged_removeAgedEntriesFromVlan (h : s.WellFormed) (now : ℚ) (v : ℕ) :
    Purged now s (s.removeAgedEntriesFromVlan now v) := by
  rw [removeAgedEntriesFromVlan]
  cases hv : s.getTableForVid v with
  | none => exact Purged.refl h
  | some table =>
    have hsame := s.samePointers_modify table (withoutAged s.agingTime now)
    refine ⟨hsame.wellFormed h, hsame.agingTime, fun vid a => ?_⟩
    rw [h.find_modify hv]
    split_ifs with hvid
    · subst hvid
      rw [MACAddressTable.find, hv]
      exact withoutAged_cases s.agingTime now (s.tables table) a
    · exact .inl rfl

theorem WellFormed.purged_removeAgedEntriesIfNeeded (h : s.WellFormed) (now : ℚ) :
    Purged now s (s.removeAgedEntriesIfNeeded now) ∧
      ∀ vid, (s.removeAgedEntriesIfNeeded now).getTableForVid vid = s.getTableForVid vid := by
  rw [removeAgedEntriesIfNeeded]
  split_ifs
  · obtain ⟨hwf, haging, hfind⟩ := h.purged_removeAgedEntriesFromAllVlans now
    exact ⟨⟨⟨hwf.1, hwf.2, hwf.3⟩, haging, hfind⟩,
      fun vid => ((h.forEachTable _).1.getTableForVid vid).trans rfl⟩
  · exact ⟨⟨⟨h.1, h.2, h.3⟩, rfl, fun _ _ => .inl rfl⟩, fun _ => rfl⟩

/-- The port of an entry that is not aged. -/
def validPort (agingTime now : ℚ) : Option AddressEntry → ℤ
  | none => -1
  | some entry => if Aged agingTime now entry then -1 else entry.portno

theorem WellFormed.getPortForAddress_spec (h : s.WellFormed) (now : ℚ) (address : MACAddress)
    (v : ℕ) :
    (s.getPortForAddress now address v).1 = validPort s.agingTime now (s.find v address.address) ∧
      Purged now s (s.getPortForAddress now address v).2 := by
  rw [getPortForAddress]
  cases hv : s.getTableForVid v with
  | none => exact ⟨by rw [find, hv]; rfl, Purged.refl h⟩
  | some table =>
    have hfind : s.find v address.address = (s.tables table)[address.address]? := by
      rw [find, hv, Option.bind_some]
    cases hentry : (s.tables table)[address.address]? with
    | none =>
      simp only [hfind, hentry, validPort]
      exact ⟨trivial, Purged.refl h⟩
    | some entry =>
      simp only [hfind, hentry, validPort]
      split_ifs with haged
      · have hsame := s.samePointers_modify table (·.erase address.address)
        refine ⟨rfl, hsame.wellFormed h, hsame.agingTime, fun vid a => ?_⟩
        rw [h.find_modify hv]
        split_ifs with hvid
        · subst hvid
          rw [MACAddressTable.find, hv, Option.bind_some, Std.TreeMap.getElem?_erase]
          split_ifs with ha
          · rw [Std.compare_eq_iff_eq] at ha
            subst ha
            exact .inr ⟨rfl, entry, hentry, haged⟩
          · exact .inl rfl
        · exact .inl rfl
      · exact ⟨rfl, Purged.refl h⟩

theorem WellFormed.find_insert (h : s.WellFormed) {v table : ℕ}
    (hv : s.getTableForVid v = some table) (b : ℕ) (entry : AddressEntry) (vid a : ℕ) :
    (s.modify table (·.insert b entry)).find vid a =
      if (vid, a) = (v, b) then some entry else s.find vid a := by
  rw [h.find_modify hv]
  simp only [Prod.mk.injEq]
  by_cases hvid : vid = v
  · subst hvid
    rw [if_pos rfl, find, hv, Option.bind_some, Std.TreeMap.getElem?_insert]
    simp only [Std.compare_eq_iff_eq, true_and, @eq_comm _ a b]
  · rw [if_neg hvid, if_neg fun h => hvid h.1]

/-- A new table is empty, and belongs to its VLAN alone. -/
theorem WellFormed.newTable_spec (h : s.WellFormed) (hvid : s.getTableForVid vid = none) :
    (s.newTable vid).2.WellFormed ∧ (s.newTable vid).2.agingTime = s.agingTime ∧
      (s.newTable vid).2.getTableForVid vid = some (s.newTable vid).1 ∧
      ∀ v a, (s.newTable vid).2.find v a = s.find v a := by
  rw [h.getTableForVid_eq] at hvid
  have hvlan : ∀ v : ℕ, (s.newTable vid).2.vlanAddressTable[v]? =
      if vid = v then some s.allocated else s.vlanAddressTable[v]? := by
    intro v
    simp only [newTable, Std.TreeMap.getElem?_insert, Std.compare_eq_iff_eq]
  have hwf : (s.newTable vid).2.WellFormed := by
    refine ⟨?_, fun {v table} hv => ?_, fun {v w table} hv hw => ?_⟩
    · rw [hvlan, newTable]
      simp only [h.addressTable_eq]
    · rw [hvlan] at hv
      split_ifs at hv
      · cases hv
        exact Nat.lt_succ_self _
      · exact (h.lt_allocated hv).trans (Nat.lt_succ_self _)
    · rw [hvlan] at hv hw
      split_ifs at hv hw with hv' hw' hw'
      · exact hv'.symm.trans hw'
      · exact absurd (h.lt_allocated hw) (by rw [Option.some.inj hv]; exact lt_irrefl _)
      · exact absurd (h.lt_allocated hv) (by rw [Option.some.inj hw]; exact lt_irrefl _)
      · exact h.vid_unique hv hw
  refine ⟨hwf, rfl, by rw [hwf.getTableForVid_eq, hvlan, if_pos rfl]; rfl, fun v a => ?_⟩
  rw [find, find, hwf.getTableForVid_eq, h.getTableForVid_eq, hvlan]
  split_ifs with hv
  · subst hv
    rw [hvid, Option.bind_some, Option.bind_none, newTable]
    simp
  · refine Option.bind_congr fun table htable => ?_
    rw [newTable]
    dsimp only
    rw [Function.update_of_ne (h.lt_allocated htable).ne]

/-- An update leaves an entry for the address with the port and the time of the update. -/
theorem WellFormed.updateTableWithAddress_spec (h : s.WellFormed) (now : ℚ) (portno : ℤ)
    {address : MACAddress} (hbroadcast : address.isBroadcast = false) (v : ℕ) :
    let t := (s.updateTableWithAddress now portno address v).2
    t.WellFormed ∧ t.agingTime = s.agingTime ∧
      (∃ entry, t.find v address.address = some entry ∧ entry.portno = portno ∧
        entry.insertionTime = now) ∧
      ∀ vid a, (vid, a) ≠ (v, address.address) → t.find vid a = s.find vid a ∨
        t.find vid a = none ∧ ∃ entry, s.find vid a = some entry ∧ Aged s.agingTime now entry := by
  -- A missing table is made first, which changes no entry.
  obtain ⟨u, table, hu, haging, hv, hfind, heq⟩ : ∃ (u : MACAddressTable) (table : ℕ),
      u.WellFormed ∧ u.agingTime = s.agingTime ∧ u.getTableForVid v = some table ∧
      (∀ vid a, u.find vid a = s.find vid a) ∧
      (s.updateTableWithAddress now portno address v).2 = match u.find v address.address with
        | none => (u.removeAgedEntriesIfNeeded now).modify table
            (·.insert address.address ⟨v, portno, now⟩)
        | some entry => u.modify table
            (·.insert address.address { entry with insertionTime := now, portno := portno }) := by
    rw [updateTableWithAddress]
    cases hv : s.getTableForVid v with
    | none =>
      obtain ⟨hwf, haging, htable, hfind⟩ := h.newTable_spec hv
      refine ⟨(s.newTable v).2, (s.newTable v).1, hwf, haging, htable, hfind, ?_⟩
      rw [hfind, find, hv, hbroadcast]
      rfl
    | some table =>
      refine ⟨s, table, h, rfl, hv, fun _ _ => rfl, ?_⟩
      rw [find, hv, hbroadcast, Option.bind_some]
      cases hentry : (s.tables table)[address.address]? <;>
        simp only [hentry, Bool.false_eq_true, if_false]
  simp only [heq, ← haging, ← hfind]
  cases hentry : u.find v address.address with
  | none =>
    obtain ⟨hpurged, hsame⟩ := hu.purged_removeAgedEntriesIfNeeded now
    have hinsert := hpurged.wellFormed.find_insert ((hsame v).trans hv) address.address
      ⟨v, portno, now⟩
    refine ⟨(samePointers_modify _ _ _).wellFormed hpurged.wellFormed, hpurged.agingTime,
      ⟨⟨v, portno, now⟩, by rw [hinsert, if_pos rfl], rfl, rfl⟩, fun vid a hne => ?_⟩
    rw [hinsert, if_neg hne]
    exact hpurged.find vid a
  | some entry =>
    have hinsert := hu.find_insert hv address.address
      { entry with insertionTime := now, portno := portno }
    refine ⟨(samePointers_modify _ _ _).wellFormed hu, rfl,
      ⟨_, by rw [hinsert, if_pos rfl], rfl, rfl⟩, fun vid a hne => ?_⟩
    rw [hinsert, if_neg hne]
    exact .inl rfl

end MACAddressTable

end Inet.Ethernet
