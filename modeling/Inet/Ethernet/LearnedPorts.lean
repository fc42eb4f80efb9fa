import Inet.Ethernet.MACAddressTable

/-!
# The ports that a switch has learned

What the calls say of one address in one VLAN is the port and the time of the last update,
with the port renamed by `copyTable` and forgotten by `flush` (`learned`). The address table
answers as if it had learned just that (`getPortForAddress_eq_answer`): an entry that has been
thrown out was aged, and stays so.
-/

namespace Inet.Ethernet

inductive Call where
  | updateTableWithAddress (portno : ℤ) (address : MACAddress) (vid : ℕ)
  | getPortForAddress (address : MACAddress) (vid : ℕ)
  | flush (portno : ℤ)
  | copyTable (portA portB : ℤ)
  | removeAgedEntriesFromVlan (vid : ℕ)
  | removeAgedEntriesFromAllVlans
  | removeAgedEntriesIfNeeded

def MACAddressTable.perform (s : MACAddressTable) (now : ℚ) : Call → MACAddressTable
  | .updateTableWithAddress portno address vid =>
    (s.updateTableWithAddress now portno address vid).2
  | .getPortForAddress address vid => (s.getPortForAddress now address vid).2
  | .flush portno => s.flush portno
  | .copyTable portA portB => s.copyTable portA portB
  | .removeAgedEntriesFromVlan vid => s.removeAgedEntriesFromVlan now vid
  | .removeAgedEntriesFromAllVlans => s.removeAgedEntriesFromAllVlans now
  | .removeAgedEntriesIfNeeded => s.removeAgedEntriesIfNeeded now

/-- The table after the calls, each at its time. -/
def MACAddressTable.after (s : MACAddressTable) (calls : List (ℚ × Call)) : MACAddressTable :=
  calls.foldl (fun s call => s.perform call.1 call.2) s

/-! ## What is learned of one address in one VLAN -/

/-- The port of an update, as it has been renamed since, and the time of the update. -/
structure Learned where
  portno : ℤ
  since : ℚ

/-- What a call changes of what has been learned. -/
def Call.learn (vid a : ℕ) (now : ℚ) (held : Option Learned) : Call → Option Learned
  | .updateTableWithAddress portno address v =>
    if address.isBroadcast = false ∧ v = vid ∧ address.address = a then some ⟨portno, now⟩
    else held
  | .flush portno => held.filter fun l => l.portno != portno
  | .copyTable portA portB =>
    held.map fun l => if l.portno = portA then { l with portno := portB } else l
  | _ => held

def learned (vid a : ℕ) (calls : List (ℚ × Call)) : Option Learned :=
  calls.foldl (fun held call => call.2.learn vid a call.1 held) none

/-- The port if it has been learned and is not aged, and -1 otherwise. -/
def answer (agingTime now : ℚ) : Option Learned → ℤ
  | none => -1
  | some l => if now < l.since + agingTime then l.portno else -1

/-- A call that can change what is learned of an address in a VLAN. -/
def Call.concerns (vid a : ℕ) : Call → Bool
  | .updateTableWithAddress _ address v => v == vid && address.address == a
  | .flush _ => true
  | .copyTable _ _ => true
  | _ => false

theorem Call.learn_of_not_concerns {vid a : ℕ} {now : ℚ} {held : Option Learned} {call : Call}
    (h : call.concerns vid a = false) : call.learn vid a now held = held := by
  cases call with
  | updateTableWithAddress portno address v =>
    simp only [concerns, Bool.and_eq_false_iff, beq_eq_false_iff_ne] at h
    rw [learn, if_neg]
    rintro ⟨-, hv, ha⟩
    obtain h | h := h
    · exact h hv
    · exact h ha
  | getPortForAddress | removeAgedEntriesFromVlan | removeAgedEntriesFromAllVlans |
    removeAgedEntriesIfNeeded => rfl
  | flush | copyTable => cases h

/-- The other calls may be left out. -/
theorem learned_filter (vid a : ℕ) (calls : List (ℚ × Call)) :
    learned vid a (calls.filter fun call => call.2.concerns vid a) = learned vid a calls := by
  rw [learned, learned, List.foldl_filter]
  congr 1
  funext held call
  split_ifs with h
  · rfl
  · exact (Call.learn_of_not_concerns (Bool.eq_false_iff.mpr h)).symm

/-! ## The table agrees with what has been learned -/

/-- What the table says of an address: its entry is what has been learned, and if it has none, then
what has been learned is aged. -/
def Agrees (agingTime now : ℚ) (held : Option Learned) : Option AddressEntry → Prop
  | some entry => held = some ⟨entry.portno, entry.insertionTime⟩
  | none => ∀ l ∈ held, l.since + agingTime ≤ now

section

variable {agingTime now now' : ℚ} {held : Option Learned} {found : Option AddressEntry}

section

variable (h : Agrees agingTime now held found)

include h

theorem Agrees.later (hnow : now ≤ now') : Agrees agingTime now' held found := by
  cases found with
  | some entry => exact h
  | none => exact fun l hl => (h l hl).trans hnow

theorem Agrees.purge {t : Option AddressEntry}
    (ht : t = found ∨ t = none ∧ ∃ entry, found = some entry ∧
      MACAddressTable.Aged agingTime now entry) : Agrees agingTime now held t := by
  obtain rfl | ⟨rfl, entry, rfl, haged⟩ := ht
  · exact h
  · intro l hl
    rw [Agrees] at h
    subst h
    cases hl
    exact haged

theorem Agrees.filter (portno : ℤ) : Agrees agingTime now (held.filter fun l => l.portno != portno)
      (found.filter fun entry => entry.portno != portno) := by
  cases found with
  | some entry =>
    obtain rfl : held = _ := h
    by_cases hport : entry.portno = portno
    · simp [Option.filter_some, Agrees, hport]
    · simp [Option.filter_some, Agrees, hport]
  | none => exact fun l hl => h l (Option.mem_filter_iff.mp hl).1

theorem Agrees.map (portA portB : ℤ) : Agrees agingTime now
      (held.map fun l => if l.portno = portA then { l with portno := portB } else l)
      (found.map fun entry =>
        if entry.portno = portA then { entry with portno := portB } else entry) := by
  cases found with
  | some entry =>
    obtain rfl : held = _ := h
    by_cases hport : entry.portno = portA
    · simp [Agrees, hport]
    · simp [Agrees, hport]
  | none =>
    intro l hl
    obtain ⟨l', hl', rfl⟩ := Option.map_eq_some_iff.mp hl
    have haged := h l' hl'
    split_ifs <;> exact haged

theorem Agrees.answer_eq :
    MACAddressTable.validPort agingTime now found = answer agingTime now held := by
  cases found with
  | some entry =>
    obtain rfl : held = _ := h
    simp only [MACAddressTable.validPort, answer, MACAddressTable.Aged, ← not_lt, ite_not]
  | none =>
    cases held with
    | none => rfl
    | some l => rw [MACAddressTable.validPort, answer, if_neg (not_lt.mpr (h l rfl))]

end

end

namespace MACAddressTable

variable {s : MACAddressTable} {now now' : ℚ} {vid a : ℕ} {held : Option Learned}

/-- Every call keeps the table in agreement with what is learned. -/
theorem agrees_perform (hs : s.WellFormed) (h : Agrees s.agingTime now held (s.find vid a))
    (call : Call) :
    (s.perform now call).WellFormed ∧ (s.perform now call).agingTime = s.agingTime ∧
      Agrees s.agingTime now (call.learn vid a now held) ((s.perform now call).find vid a) := by
  have hpurge : ∀ {t}, Purged now s t → t.WellFormed ∧ t.agingTime = s.agingTime ∧
      Agrees s.agingTime now held (t.find vid a) :=
    fun ht => ⟨ht.wellFormed, ht.agingTime, h.purge (ht.find vid a)⟩
  cases call with
  | updateTableWithAddress portno address v =>
    rw [perform, Call.learn]
    cases hbroadcast : address.isBroadcast with
    | true =>
      rw [updateTableWithAddress, hbroadcast]
      exact ⟨hs, rfl, h⟩
    | false =>
      obtain ⟨hwf, haging, ⟨entry, hentry, hport, htime⟩, hother⟩ :=
        hs.updateTableWithAddress_spec now portno hbroadcast v
      refine ⟨hwf, haging, ?_⟩
      by_cases hkey : v = vid ∧ address.address = a
      · obtain ⟨rfl, rfl⟩ := hkey
        rw [if_pos ⟨rfl, rfl, rfl⟩, hentry, Agrees, hport, htime]
      · rw [if_neg fun hk => hkey hk.2]
        refine h.purge (hother vid a fun hk => hkey ?_)
        obtain ⟨rfl, rfl⟩ := Prod.mk.inj hk
        exact ⟨rfl, rfl⟩
  | getPortForAddress address v => exact hpurge (hs.getPortForAddress_spec now address v).2
  | flush portno =>
    have hsame := (hs.forEachTable fun table => table.filter fun _ e => e.portno != portno).1
    refine ⟨hsame.wellFormed hs, hsame.agingTime, ?_⟩
    rw [perform, hs.find_flush]
    exact h.filter portno
  | copyTable portA portB =>
    have hsame := (hs.forEachTable fun table => table.map fun _ e =>
      if e.portno = portA then { e with portno := portB } else e).1
    refine ⟨hsame.wellFormed hs, hsame.agingTime, ?_⟩
    rw [perform, hs.find_copyTable]
    exact h.map portA portB
  | removeAgedEntriesFromVlan v => exact hpurge (hs.purged_removeAgedEntriesFromVlan now v)
  | removeAgedEntriesFromAllVlans => exact hpurge (hs.purged_removeAgedEntriesFromAllVlans now)
  | removeAgedEntriesIfNeeded => exact hpurge (hs.purged_removeAgedEntriesIfNeeded now).1

/-- The answer after the calls that remain, at the end of which it is `now'`. -/
theorem getPortForAddress_after (hs : s.WellFormed)
    (h : Agrees s.agingTime now held (s.find vid a)) {calls : List (ℚ × Call)}
    (hstart : ∀ t ∈ calls.map Prod.fst ++ [now'], now ≤ t)
    (htimes : (calls.map Prod.fst ++ [now']).Pairwise (· ≤ ·)) {address : MACAddress}
    (ha : address.address = a) :
    ((s.after calls).getPortForAddress now' address vid).1 = answer s.agingTime now'
        (calls.foldl (fun held call => call.2.learn vid a call.1 held) held) := by
  induction calls generalizing s now held with
  | nil =>
    subst ha
    exact (hs.getPortForAddress_spec now' address vid).1.trans
      (h.later (hstart now' (by simp))).answer_eq
  | cons call calls ih =>
    obtain ⟨hlater, htimes⟩ := List.pairwise_cons.mp htimes
    obtain ⟨hwf, haging, hagrees⟩ :=
      agrees_perform hs (h.later (hstart call.1 (by simp))) call.2
    rw [← haging] at hagrees
    rw [after, List.foldl_cons, List.foldl_cons, ← haging]
    exact ih hwf hagrees hlater htimes

theorem getPortForAddress_initial (agingTime : ℚ) {calls : List (ℚ × Call)}
    (htimes : (calls.map Prod.fst ++ [now]).Pairwise (· ≤ ·)) (address : MACAddress) (vid : ℕ) :
    (((initial agingTime).after calls).getPortForAddress now address vid).1 =
      answer agingTime now (learned vid address.address calls) := by
  obtain ⟨start, hstart⟩ : ∃ start, ∀ t ∈ calls.map Prod.fst ++ [now], start ≤ t := by
    cases calls with
    | nil => exact ⟨now, by simp⟩
    | cons call calls =>
      obtain ⟨hfirst, -⟩ := List.pairwise_cons.mp htimes
      exact ⟨call.1, List.forall_mem_cons.mpr ⟨le_rfl, hfirst⟩⟩
  have hnone : (initial agingTime).find vid address.address = none := by
    rw [find, (wellFormed_initial agingTime).getTableForVid_eq]
    simp [initial]
  have hagrees : Agrees agingTime start none ((initial agingTime).find vid address.address) := by
    rw [hnone]
    simp [Agrees]
  exact getPortForAddress_after (wellFormed_initial agingTime) hagrees hstart htimes rfl

/-- The table answers what the calls have taught it of the address in the VLAN, and only those
calls matter that concern the two: neither the other VLANs nor any purge does. -/
theorem getPortForAddress_eq_answer (agingTime : ℚ) {calls : List (ℚ × Call)}
    (htimes : (calls.map Prod.fst ++ [now]).Pairwise (· ≤ ·)) (address : MACAddress) (vid : ℕ) :
    (((initial agingTime).after calls).getPortForAddress now address vid).1 =
        answer agingTime now (learned vid address.address calls) ∧
      (((initial agingTime).after calls).getPortForAddress now address vid).1 =
        (((initial agingTime).after
          (calls.filter fun call => call.2.concerns vid address.address)).getPortForAddress
            now address vid).1 := by
  have hanswer := getPortForAddress_initial agingTime htimes address vid
  refine ⟨hanswer, ?_⟩
  have hsublist : (calls.filter fun call => call.2.concerns vid address.address).Sublist calls :=
    List.filter_sublist
  have hfiltered := htimes.sublist ((hsublist.map Prod.fst).append_right [now])
  rw [hanswer, getPortForAddress_initial agingTime hfiltered, learned_filter]

/-- A port that is renamed before an entry of another VLAN is made. -/
theorem getPortForAddress_eq_answer_renamed :
    (((initial 120).after [(1, .updateTableWithAddress 3 ⟨7, false⟩ 0), (2, .copyTable 3 4),
      (5, .updateTableWithAddress 6 ⟨7, false⟩ 1)]).getPortForAddress 100 ⟨7, false⟩ 0).1 =
      answer 120 100 (some ⟨4, 1⟩) :=
  (@getPortForAddress_eq_answer 100 120 [(1, .updateTableWithAddress 3 ⟨7, false⟩ 0),
    (2, .copyTable 3 4), (5, .updateTableWithAddress 6 ⟨7, false⟩ 1)] (by decide) ⟨7, false⟩ 0).1

end MACAddressTable

end Inet.Ethernet
