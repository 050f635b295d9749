import GitIM.AssetAccounts
import Mathlib.Algebra.Order.BigOperators.Group.List
import Mathlib.Data.List.Nodup

/-!
# The counters of the asset store are exact

Every critical section moves the totals by what it moves its reservation, and a new
generation leaves all reservations of the old one uncounted. So the totals are the sums
over the reservations that are held, and what is taken from them has been added before.
-/

namespace AssetAccounting

open TextLines TextScan FileTree Checked Runs

section Tally
variable {α : Type} {f : α → Nat} {l : List α} {i : Nat} {x : α}

def tally (f : α → Nat) (l : List α) : Nat := (l.map f).sum

theorem tally_append (f : α → Nat) (l : List α) (x : α) : tally f (l ++ [x]) = tally f l + f x := by
  simp [tally]

theorem tally_set (h : l[i]? = some x) (y : α) : tally f (l.set i y) + f x = tally f l + f y := by
  induction l generalizing i with
  | nil => cases h
  | cons z l ih =>
    cases i with
    | zero =>
      cases h
      simp only [tally, List.set_cons_zero, List.map_cons, List.sum_cons]
      omega
    | succ i =>
      have hrest := ih (i := i) h
      simp only [tally, List.set_cons_succ, List.map_cons, List.sum_cons] at hrest ⊢
      omega

theorem tally_eraseIdx (h : l[i]? = some x) : tally f (l.eraseIdx i) + f x = tally f l := by
  induction l generalizing i with
  | nil => cases h
  | cons z l ih =>
    cases i with
    | zero =>
      cases h
      simp only [tally, List.eraseIdx_cons_zero, List.map_cons, List.sum_cons]
      omega
    | succ i =>
      have hrest := ih (i := i) h
      simp only [tally, List.eraseIdx_cons_succ, List.map_cons, List.sum_cons] at hrest ⊢
      omega

theorem le_tally (h : l[i]? = some x) : f x ≤ tally f l := by
  have hrest := tally_eraseIdx (f := f) h
  omega

theorem tally_mono {g : α → Nat} (h : ∀ x ∈ l, f x ≤ g x) : tally f l ≤ tally g l :=
  List.sum_le_sum h

theorem tally_eq_zero (h : ∀ x ∈ l, f x = 0) : tally f l = 0 := by
  apply List.sum_eq_zero
  intro n hn
  obtain ⟨x, hx, rfl⟩ := List.mem_map.mp hn
  exact h x hx

end Tally

section Invariant

/-- The bytes of a reservation that count in a generation. -/
def bytesAt (generation : Nat) (r : AssetReservation) : Nat :=
  if r.generation = generation ∧ r.released = false then r.bytes else 0

def claimAt (generation : Nat) (r : AssetReservation) : Nat :=
  if r.generation = generation ∧ r.released = false then r.unmaterialized else 0

/-- The committed usage is that of the objects, and an object is known once. -/
structure Ledger (usage : AssetUsage) (objects : List (Text × Nat)) : Prop where
  bytes : usage.bytes = tally Prod.snd objects
  count : usage.objects = objects.length
  keys : (objects.map Prod.fst).Nodup

structure Exact (s : WorkspaceAssetState) : Prop where
  reserved : s.accounting.reserved =
    tally (fun h => bytesAt s.accounting.generation h.reservation) s.reservations
  unmaterialized : s.accounting.unmaterialized =
    tally (fun h => claimAt s.accounting.generation h.reservation) s.reservations
  within : s.accounting.unmaterialized ≤ s.accounting.reserved
  ledger : Ledger s.accounting.committed s.accounting.objects

/-- A reservation as its owner has left it. -/
structure Owned (generation : Nat) (h : Held) : Prop where
  generation : h.reservation.generation ≤ generation
  claim : h.reservation.unmaterialized ≤ h.reservation.bytes
  claimed : ∀ n, h.hold = .claimed n → n ≤ h.reservation.unmaterialized
  released : h.reservation.released = true → h.hold = .doomed

structure Inv (s : WorkspaceAssetState) : Prop where
  exact : Exact s
  owned : ∀ h ∈ s.reservations, Owned s.accounting.generation h

/-- An operation moves the totals as it moves its reservation. -/
structure Balanced (acc : AccountingState) (r : AssetReservation) (result : Result) : Prop where
  generation : result.1.generation = acc.generation
  reserved : result.1.reserved + bytesAt acc.generation r =
    acc.reserved + bytesAt acc.generation result.2.1
  unmaterialized : result.1.unmaterialized + claimAt acc.generation r =
    acc.unmaterialized + claimAt acc.generation result.2.1
  ledger : Ledger acc.committed acc.objects → Ledger result.1.committed result.1.objects

theorem balanced_refl (acc : AccountingState) (r : AssetReservation) (answer : Except AssetError Unit) :
    Balanced acc r (acc, r, answer) :=
  ⟨rfl, rfl, rfl, id⟩

variable {s : WorkspaceAssetState} {acc : AccountingState} {r : AssetReservation}

theorem claimAt_le_bytesAt {g : Nat} {r : AssetReservation} (h : r.unmaterialized ≤ r.bytes) :
    claimAt g r ≤ bytesAt g r := by
  unfold claimAt bytesAt
  split
  · exact h
  · exact Nat.le_refl 0

/-- The totals fit the reservations as long as every claim is within its reservation. -/
theorem within_of_owned {g : Nat} {hs : List Held} (h : ∀ x ∈ hs, Owned g x) :
    tally (fun x => claimAt g x.reservation) hs ≤ tally (fun x => bytesAt g x.reservation) hs :=
  tally_mono fun x hx => claimAt_le_bytesAt (h x hx).claim

theorem Inv.settle (hinv : Inv s) {i : Nat} {h : Held} (hi : s.reservations[i]? = some h)
    {result : Result} {hold : Hold} (hbal : Balanced s.accounting h.reservation result)
    (howned : Owned s.accounting.generation ⟨result.2.1, hold⟩) :
    Inv (settle s i result hold) := by
  have hmem : ∀ x ∈ s.reservations.set i ⟨result.2.1, hold⟩, Owned s.accounting.generation x := by
    intro x hx
    rcases List.mem_or_eq_of_mem_set hx with hx | rfl
    · exact hinv.owned x hx
    · exact howned
  have hbytes := tally_set (f := fun x => bytesAt s.accounting.generation x.reservation) hi
    ⟨result.2.1, hold⟩
  have hclaims := tally_set (f := fun x => claimAt s.accounting.generation x.reservation) hi
    ⟨result.2.1, hold⟩
  dsimp only at hbytes hclaims
  have hreserved := hinv.exact.reserved
  have hunmaterialized := hinv.exact.unmaterialized
  have hres : result.1.reserved = tally
      (fun x => bytesAt s.accounting.generation x.reservation)
      (s.reservations.set i ⟨result.2.1, hold⟩) := by
    have := hbal.reserved
    omega
  have hunm : result.1.unmaterialized = tally
      (fun x => claimAt s.accounting.generation x.reservation)
      (s.reservations.set i ⟨result.2.1, hold⟩) := by
    have := hbal.unmaterialized
    omega
  refine ⟨⟨?_, ?_, ?_, hbal.ledger hinv.exact.ledger⟩, ?_⟩
  · simp only [AssetAccounting.settle, hbal.generation]
    exact hres
  · simp only [AssetAccounting.settle, hbal.generation]
    exact hunm
  · simp only [AssetAccounting.settle, hres, hunm]
    exact within_of_owned hmem
  · simp only [AssetAccounting.settle, hbal.generation]
    exact hmem

theorem Inv.eraseIdx (hinv : Inv s) {i : Nat} {h : Held} (hi : s.reservations[i]? = some h)
    {result : Result} (hbal : Balanced s.accounting h.reservation result)
    (hgone : bytesAt s.accounting.generation result.2.1 = 0)
    (hgone' : claimAt s.accounting.generation result.2.1 = 0) :
    Inv ⟨result.1, s.reservations.eraseIdx i⟩ := by
  have hmem : ∀ x ∈ s.reservations.eraseIdx i, Owned s.accounting.generation x :=
    fun x hx => hinv.owned x (List.mem_of_mem_eraseIdx hx)
  have hbytes := tally_eraseIdx (f := fun x => bytesAt s.accounting.generation x.reservation) hi
  have hclaims := tally_eraseIdx (f := fun x => claimAt s.accounting.generation x.reservation) hi
  have hreserved := hinv.exact.reserved
  have hunmaterialized := hinv.exact.unmaterialized
  have hres : result.1.reserved = tally
      (fun x => bytesAt s.accounting.generation x.reservation) (s.reservations.eraseIdx i) := by
    have := hbal.reserved
    omega
  have hunm : result.1.unmaterialized = tally
      (fun x => claimAt s.accounting.generation x.reservation) (s.reservations.eraseIdx i) := by
    have := hbal.unmaterialized
    omega
  refine ⟨⟨?_, ?_, ?_, hbal.ledger hinv.exact.ledger⟩, ?_⟩
  · rw [hbal.generation]
    exact hres
  · rw [hbal.generation]
    exact hunm
  · rw [hres, hunm]
    exact within_of_owned hmem
  · rw [hbal.generation]
    exact hmem

/-- A new reservation of the current generation, counted in full. -/
theorem Inv.addHeld (hinv : Inv s) {r : AssetReservation} {hold : Hold}
    (hgen : r.generation = s.accounting.generation) (hlive : r.released = false)
    (howned : Owned s.accounting.generation ⟨r, hold⟩) :
    Inv (addHeld s { s.accounting with
      reserved := s.accounting.reserved + r.bytes
      unmaterialized := s.accounting.unmaterialized + r.unmaterialized } r hold) := by
  have hbytes : bytesAt s.accounting.generation r = r.bytes := if_pos ⟨hgen, hlive⟩
  have hclaim : claimAt s.accounting.generation r = r.unmaterialized := if_pos ⟨hgen, hlive⟩
  refine ⟨⟨?_, ?_, ?_, hinv.exact.ledger⟩, ?_⟩
  · simp only [AssetAccounting.addHeld, tally_append, hbytes]
    rw [hinv.exact.reserved]
  · simp only [AssetAccounting.addHeld, tally_append, hclaim]
    rw [hinv.exact.unmaterialized]
  · have hwithin := hinv.exact.within
    have hsmall : r.unmaterialized ≤ r.bytes := howned.claim
    simp only [AssetAccounting.addHeld]
    omega
  · intro x hx
    rcases List.mem_append.mp hx with hx | hx
    · exact hinv.owned x hx
    · rw [List.mem_singleton.mp hx]
      exact howned

theorem Inv.withLedger (hinv : Inv s) {ledger : AssetUsage × List (Text × Nat)} {flag : Bool}
    (hledger : Ledger ledger.1 ledger.2) :
    Inv (withAccounts s { withLedger s ledger with initialized := flag }) :=
  ⟨⟨hinv.exact.reserved, hinv.exact.unmaterialized, hinv.exact.within, hledger⟩, hinv.owned⟩

/-- In a new generation nothing is counted; what is still held is of an older one. -/
theorem Inv.nextGeneration (hinv : Inv s) {binding : Option Text} {limits : Option AssetLimits}
    {acc : AccountingState} (h : nextGeneration s.accounting binding limits = .ok acc) :
    Inv (withAccounts s acc) := by
  rw [AssetAccounting.nextGeneration, bind_eq_ok_iff] at h
  obtain ⟨generation, hgeneration, h⟩ := h
  cases h
  have hnext : generation = s.accounting.generation + 1 := by
    simp only [orError, checkedAdd] at hgeneration
    split at hgeneration
    · rename_i hsome
      cases hgeneration
      split at hsome
      · exact (Option.some.inj hsome).symm
      · cases hsome
    · cases hgeneration
  have hold : ∀ x ∈ s.reservations, x.reservation.generation ≠ generation := by
    intro x hx
    have hle := (hinv.owned x hx).generation
    omega
  refine ⟨⟨?_, ?_, Nat.le_refl 0, ⟨rfl, rfl, List.nodup_nil⟩⟩, ?_⟩
  · exact (tally_eq_zero fun x hx => if_neg fun h => hold x hx h.1).symm
  · exact (tally_eq_zero fun x hx => if_neg fun h => hold x hx h.1).symm
  · intro x hx
    obtain ⟨hle, hclaim, hclaimed, hreleased⟩ := hinv.owned x hx
    exact ⟨by simp only [withAccounts]; omega, hclaim, hclaimed, hreleased⟩

end Invariant

section Operations
variable {store : AssetStore} {acc : AccountingState} {r : AssetReservation} {env : OpEnv}

@[simp] theorem checkedAdd_eq_some {a b c : Nat} :
    checkedAdd a b = some c ↔ a + b < word ∧ a + b = c := by
  rw [checkedAdd]
  split <;> simp [*]

@[simp] theorem checkedSub_eq_some {a b c : Nat} :
    checkedSub a b = some c ↔ b ≤ a ∧ a - b = c := by
  rw [checkedSub]
  split <;> simp [*]

theorem orError_eq_ok {α : Type} {x : Option α} {e : AssetError} {a : α} :
    orError x e = .ok a ↔ x = some a := by
  cases x with
  | none => simp [orError]
  | some b => simp [orError]

theorem validateAccounting_ok {u : Unit} (h : validateAccounting store acc = .ok u) :
    acc.generation = store.generation := by
  have := not_not.mp (refuse_eq_ok_iff.mp h)
  exact this.2.1

theorem validateCurrent_ok {u : Unit} (h : validateCurrent store acc env = .ok u) :
    acc.generation = store.generation := by
  obtain ⟨v, hv, -⟩ := bind_eq_ok_iff.mp h
  exact validateAccounting_ok hv

/-- A reservation that is not foreign to a current handle is counted. -/
theorem not_foreign (hgen : acc.generation = store.generation) (h : ¬foreign store r = true) :
    r.generation = acc.generation ∧ r.released = false := by
  have hboth : r.generation = store.generation ∧ r.released = false := by
    simpa [foreign] using h
  exact ⟨hboth.1.trans hgen.symm, hboth.2⟩

theorem reserve_ok {incoming : Nat} {result : AccountingState × AssetReservation}
    (h : reserve store acc env incoming = .ok result) :
    result = ({ acc with
        reserved := acc.reserved + incoming
        unmaterialized := acc.unmaterialized + incoming },
      ⟨incoming, incoming, acc.generation, false⟩) := by
  obtain ⟨u, hcurrent, h⟩ := bind_eq_ok_iff.mp h
  obtain ⟨space, -, h⟩ := bind_eq_ok_iff.mp h
  obtain ⟨pending, hpending, h⟩ := bind_eq_ok_iff.mp h
  obtain ⟨claimed, hclaimed, h⟩ := bind_eq_ok_iff.mp h
  obtain ⟨v, -, h⟩ := bind_eq_ok_iff.mp h
  cases h
  obtain ⟨-, rfl⟩ := checkedAdd_eq_some.mp (orError_eq_ok.mp hpending)
  obtain ⟨-, rfl⟩ := checkedAdd_eq_some.mp (orError_eq_ok.mp hclaimed)
  rw [validateCurrent_ok hcurrent]

theorem extendTotals_ok {incoming : Nat} {totals : Nat × Nat}
    (h : extendTotals store acc env r incoming = .ok totals) :
    r.generation = acc.generation ∧ r.released = false ∧
      totals = (acc.reserved + incoming, acc.unmaterialized + incoming) := by
  obtain ⟨u, hcurrent, h⟩ := bind_eq_ok_iff.mp h
  obtain ⟨v, hown, h⟩ := bind_eq_ok_iff.mp h
  obtain ⟨space, -, h⟩ := bind_eq_ok_iff.mp h
  obtain ⟨reserved, hreserved, h⟩ := bind_eq_ok_iff.mp h
  obtain ⟨claimed, hclaimed, h⟩ := bind_eq_ok_iff.mp h
  obtain ⟨w, -, h⟩ := bind_eq_ok_iff.mp h
  cases h
  obtain ⟨-, rfl⟩ := checkedAdd_eq_some.mp (orError_eq_ok.mp hreserved)
  obtain ⟨-, rfl⟩ := checkedAdd_eq_some.mp (orError_eq_ok.mp hclaimed)
  obtain ⟨hgen, hlive⟩ := not_foreign (validateCurrent_ok hcurrent) (refuse_eq_ok_iff.mp hown)
  exact ⟨hgen, hlive, rfl⟩

/-- An extension counts the bytes in the accounts and in the reservation, or in neither. -/
theorem extendReservation_cases (hclaim : r.unmaterialized ≤ r.bytes) (incoming : Nat) :
    (∃ e, extendReservation store acc env r incoming = (acc, r, .error e)) ∨
      (r.generation = acc.generation ∧ r.released = false ∧
        extendReservation store acc env r incoming =
          ({ acc with
              reserved := acc.reserved + incoming
              unmaterialized := acc.unmaterialized + incoming },
            { r with
              bytes := r.bytes + incoming
              unmaterialized := r.unmaterialized + incoming }, .ok ())) := by
  unfold extendReservation
  cases htotals : extendTotals store acc env r incoming with
  | error e => exact .inl ⟨e, rfl⟩
  | ok totals =>
    obtain ⟨hgen, hlive, rfl⟩ := extendTotals_ok htotals
    cases hbytes : checkedAdd r.bytes incoming with
    | none => exact .inl ⟨_, rfl⟩
    | some bytes =>
      obtain ⟨hsmall, rfl⟩ := checkedAdd_eq_some.mp hbytes
      -- what is claimed is within the bytes, so it fits if they do
      have hfits : checkedAdd r.unmaterialized incoming = some (r.unmaterialized + incoming) :=
        checkedAdd_eq_some.mpr ⟨by omega, rfl⟩
      rw [hfits]
      exact .inr ⟨hgen, hlive, rfl⟩

theorem materializeTotals_ok {written : Nat} {totals : Nat × Nat}
    (h : materializeTotals store acc r written = .ok totals) :
    r.generation = acc.generation ∧ r.released = false ∧ written ≤ r.unmaterialized ∧
      written ≤ acc.unmaterialized ∧
      totals = (r.unmaterialized - written, acc.unmaterialized - written) := by
  obtain ⟨u, hcurrent, h⟩ := bind_eq_ok_iff.mp h
  obtain ⟨v, hown, h⟩ := bind_eq_ok_iff.mp h
  obtain ⟨claim, hclaim, h⟩ := bind_eq_ok_iff.mp h
  obtain ⟨claimed, hclaimed, h⟩ := bind_eq_ok_iff.mp h
  cases h
  obtain ⟨hle, rfl⟩ := checkedSub_eq_some.mp (orError_eq_ok.mp hclaim)
  obtain ⟨hle', rfl⟩ := checkedSub_eq_some.mp (orError_eq_ok.mp hclaimed)
  obtain ⟨hgen, hlive⟩ := not_foreign (validateAccounting_ok hcurrent) (refuse_eq_ok_iff.mp hown)
  exact ⟨hgen, hlive, hle, hle', rfl⟩

theorem materializeReservation_cases (written : Nat) :
    (∃ e, materializeReservation store acc r written = (acc, r, .error e)) ∨
      (r.generation = acc.generation ∧ r.released = false ∧ written ≤ r.unmaterialized ∧
        written ≤ acc.unmaterialized ∧
        materializeReservation store acc r written =
          ({ acc with unmaterialized := acc.unmaterialized - written },
            { r with unmaterialized := r.unmaterialized - written }, .ok ())) := by
  unfold materializeReservation
  cases htotals : materializeTotals store acc r written with
  | error e => exact .inl ⟨e, rfl⟩
  | ok totals =>
    obtain ⟨hgen, hlive, hle, hle', rfl⟩ := materializeTotals_ok htotals
    exact .inr ⟨hgen, hlive, hle, hle', rfl⟩

theorem withoutReservation_ok {what : Text} {totals : Nat × Nat}
    (h : withoutReservation acc r what = .ok totals) :
    r.bytes ≤ acc.reserved ∧ r.unmaterialized ≤ acc.unmaterialized ∧
      totals = (acc.reserved - r.bytes, acc.unmaterialized - r.unmaterialized) := by
  obtain ⟨reserved, hreserved, h⟩ := bind_eq_ok_iff.mp h
  obtain ⟨claimed, hclaimed, h⟩ := bind_eq_ok_iff.mp h
  cases h
  obtain ⟨hle, rfl⟩ := checkedSub_eq_some.mp (orError_eq_ok.mp hreserved)
  obtain ⟨hle', rfl⟩ := checkedSub_eq_some.mp (orError_eq_ok.mp hclaimed)
  exact ⟨hle, hle', rfl⟩

theorem Ledger.insert {usage after : AssetUsage} {objects : List (Text × Nat)} {hash : Text}
    {size : Nat} {e e' : AssetError} (h : Ledger usage objects)
    (hnew : hash ∉ objects.map Prod.fst) (hadd : addObject usage size e e' = .ok after) :
    Ledger after (upsert (fun _ => size) hash objects) := by
  obtain ⟨bytes, hbytes, hadd⟩ := bind_eq_ok_iff.mp hadd
  obtain ⟨count, hcount, hadd⟩ := bind_eq_ok_iff.mp hadd
  cases hadd
  obtain ⟨-, rfl⟩ := checkedAdd_eq_some.mp (orError_eq_ok.mp hbytes)
  obtain ⟨-, rfl⟩ := checkedAdd_eq_some.mp (orError_eq_ok.mp hcount)
  have happend : upsert (fun _ => size) hash objects = objects ++ [(hash, size)] :=
    upsert_of_not_mem hnew
  rw [happend]
  refine ⟨?_, ?_, ?_⟩
  · rw [tally_append, h.bytes]
  · rw [List.length_append, h.count]
    rfl
  · rw [List.map_append]
    refine List.nodup_append.mpr ⟨h.keys, List.nodup_cons.mpr ⟨List.not_mem_nil, List.nodup_nil⟩, ?_⟩
    intro a ha b hb heq
    have hhash : b = hash := List.mem_singleton.mp hb
    exact hnew (hhash ▸ heq ▸ ha)

theorem withObject_ledger {hash : Text} {size : Nat} {ledger : AssetUsage × List (Text × Nat)}
    (h : Ledger acc.committed acc.objects) (hok : withObject acc hash size = .ok ledger) :
    Ledger ledger.1 ledger.2 := by
  rw [withObject] at hok
  split at hok
  · cases hok
    exact h
  · rename_i hnew
    obtain ⟨usage, hadd, hok⟩ := bind_eq_ok_iff.mp hok
    cases hok
    refine h.insert (fun hmem => hnew ?_) hadd
    obtain ⟨v, hv⟩ := lookup_isSome_iff.mpr hmem
    rw [hv]
    rfl

theorem commitTotals_ok {hash : Text} {size : Nat}
    {totals : (Nat × Nat) × AssetUsage × List (Text × Nat)}
    (h : commitTotals acc r hash size = .ok totals) :
    r.bytes ≤ acc.reserved ∧ r.unmaterialized ≤ acc.unmaterialized ∧
      totals.1 = (acc.reserved - r.bytes, acc.unmaterialized - r.unmaterialized) ∧
      withObject acc hash size = .ok totals.2 := by
  obtain ⟨counts, hcounts, h⟩ := bind_eq_ok_iff.mp h
  obtain ⟨ledger, hledger, h⟩ := bind_eq_ok_iff.mp h
  cases h
  obtain ⟨hle, hle', hcounts⟩ := withoutReservation_ok hcounts
  exact ⟨hle, hle', hcounts, hledger⟩

theorem bytesAt_live (hgen : r.generation = acc.generation) (hlive : r.released = false) :
    bytesAt acc.generation r = r.bytes := if_pos ⟨hgen, hlive⟩

theorem claimAt_live (hgen : r.generation = acc.generation) (hlive : r.released = false) :
    claimAt acc.generation r = r.unmaterialized := if_pos ⟨hgen, hlive⟩

theorem bytesAt_released (g : Nat) (h : r.released = true) : bytesAt g r = 0 :=
  if_neg fun hlive => by simp [h] at hlive

theorem claimAt_released (g : Nat) (h : r.released = true) : claimAt g r = 0 :=
  if_neg fun hlive => by simp [h] at hlive

theorem bytesAt_older {g : Nat} (h : r.generation ≠ g) : bytesAt g r = 0 := if_neg fun hlive => h hlive.1

theorem claimAt_older {g : Nat} (h : r.generation ≠ g) : claimAt g r = 0 := if_neg fun hlive => h hlive.1

/-- Letting go of a reservation that is not counted changes no account. -/
theorem balanced_older (h : r.generation ≠ acc.generation) (answer : Except AssetError Unit) :
    Balanced acc r (acc, { r with released := true }, answer) := by
  refine ⟨rfl, ?_, ?_, id⟩
  · rw [bytesAt_older h, bytesAt_released _ rfl]
  · rw [claimAt_older h, claimAt_released _ rfl]

/-- Letting go of a reservation that is counted. -/
theorem balanced_released {after : AccountingState} {answer : Except AssetError Unit}
    (hgen : r.generation = acc.generation) (hlive : r.released = false)
    (hbytes : r.bytes ≤ acc.reserved) (hclaim : r.unmaterialized ≤ acc.unmaterialized)
    (hsame : after.generation = acc.generation) (hreserved : after.reserved = acc.reserved - r.bytes)
    (hunmaterialized : after.unmaterialized = acc.unmaterialized - r.unmaterialized)
    (hledger : Ledger acc.committed acc.objects → Ledger after.committed after.objects) :
    Balanced acc r (after, { r with released := true }, answer) := by
  refine ⟨hsame, ?_, ?_, hledger⟩
  · rw [bytesAt_live hgen hlive, bytesAt_released _ rfl, hreserved]
    omega
  · rw [claimAt_live hgen hlive, claimAt_released _ rfl, hunmaterialized]
    omega

theorem commit_balanced (hash : Text) (size : Nat) (hlive : r.released = false) :
    Balanced acc r (commit acc r hash size) := by
  unfold commit
  split
  · rename_i hgen
    exact balanced_older (Ne.symm hgen) _
  · rename_i hgen
    have hsame : r.generation = acc.generation := (not_not.mp hgen).symm
    cases htotals : commitTotals acc r hash size with
    | error e => exact balanced_refl acc r _
    | ok totals =>
      obtain ⟨hbytes, hclaim, hcounts, hledger⟩ := commitTotals_ok htotals
      exact balanced_released hsame hlive hbytes hclaim rfl (by rw [hcounts]) (by rw [hcounts])
        fun h => withObject_ledger h hledger

theorem releaseInner_balanced : Balanced acc r (releaseInner acc r) := by
  unfold releaseInner
  split
  · exact balanced_refl acc r _
  rename_i hreleased
  split
  · rename_i hgen
    exact balanced_older (Ne.symm hgen) _
  · rename_i hgen
    have hsame : r.generation = acc.generation := (not_not.mp hgen).symm
    cases htotals : withoutReservation acc r "release".toList with
    | error e => exact balanced_refl acc r _
    | ok totals =>
      obtain ⟨hbytes, hclaim, rfl⟩ := withoutReservation_ok htotals
      exact balanced_released hsame (eq_false_of_ne_true hreleased) hbytes hclaim rfl rfl rfl id

/-- A reservation that stays counted moves the totals by what it is moved. -/
theorem balanced_counted {after : AccountingState} {r' : AssetReservation}
    {answer : Except AssetError Unit} (hgen : r.generation = acc.generation)
    (hlive : r.released = false) (hgen' : r'.generation = r.generation)
    (hlive' : r'.released = r.released) (hsame : after.generation = acc.generation)
    (hreserved : after.reserved + r.bytes = acc.reserved + r'.bytes)
    (hunmaterialized : after.unmaterialized + r.unmaterialized =
      acc.unmaterialized + r'.unmaterialized)
    (hledger : Ledger acc.committed acc.objects → Ledger after.committed after.objects) :
    Balanced acc r (after, r', answer) := by
  refine ⟨hsame, ?_, ?_, hledger⟩
  · rw [bytesAt_live hgen hlive, bytesAt_live (hgen'.trans hgen) (hlive'.trans hlive)]
    exact hreserved
  · rw [claimAt_live hgen hlive, claimAt_live (hgen'.trans hgen) (hlive'.trans hlive)]
    exact hunmaterialized

theorem extendReservation_balanced (hclaim : r.unmaterialized ≤ r.bytes) (incoming : Nat) :
    Balanced acc r (extendReservation store acc env r incoming) := by
  rcases extendReservation_cases hclaim incoming with ⟨e, heq⟩ | ⟨hgen, hlive, heq⟩
  · rw [heq]
    exact balanced_refl acc r _
  · rw [heq]
    refine balanced_counted hgen hlive rfl rfl rfl ?_ ?_ id
    · dsimp only
      omega
    · dsimp only
      omega

theorem materializeReservation_balanced (written : Nat) :
    Balanced acc r (materializeReservation store acc r written) := by
  rcases materializeReservation_cases written with ⟨e, heq⟩ | ⟨hgen, hlive, hle, hle', heq⟩
  · rw [heq]
    exact balanced_refl acc r _
  · rw [heq]
    refine balanced_counted hgen hlive rfl rfl rfl rfl ?_ id
    dsimp only
    omega

end Operations

section Scan
variable {limits : AssetLimits}

theorem fold_ledger {objects : List (Text × Nat)} {start ledger : AssetUsage × List (Text × Nat)}
    (hstart : Ledger start.1 start.2) (hnodup : (objects.map Prod.fst).Nodup)
    (hnew : ∀ o ∈ objects, o.1 ∉ start.2.map Prod.fst)
    (h : objects.foldlM countObject start = .ok ledger) : Ledger ledger.1 ledger.2 := by
  induction objects generalizing start with
  | nil =>
    cases h
    exact hstart
  | cons o objects ih =>
    rw [List.map_cons, List.nodup_cons] at hnodup
    rw [List.foldlM_cons, bind_eq_ok_iff] at h
    obtain ⟨next, hnext, hrest⟩ := h
    obtain ⟨usage, hadd, hnext⟩ := bind_eq_ok_iff.mp hnext
    cases hnext
    have hfresh := hnew o List.mem_cons_self
    apply ih (hstart.insert hfresh hadd) hnodup.2 _ hrest
    intro o' ho'
    rw [upsert_of_not_mem hfresh, List.map_append, List.mem_append]
    rintro (hmem | hmem)
    · exact hnew o' (List.mem_cons_of_mem o ho') hmem
    · have hsame : o'.1 = o.1 := List.mem_singleton.mp hmem
      exact hnodup.1 (hsame ▸ List.mem_map_of_mem ho')

theorem mem_shardObjects {shard : Shard} {o : Text × Nat} (h : o ∈ shardObjects limits shard) :
    validShard shard.name = true ∧ shard.name <+: o.1 ∧ o.1 ∈ shard.entries.map Prod.fst := by
  rw [shardObjects] at h
  split at h
  · rename_i hshard
    obtain ⟨entry, hentry, ho⟩ := List.mem_filterMap.mp h
    rw [regularObject] at ho
    split at ho
    · rename_i hfile
      cases ho
      exact ⟨hshard.2, hfile.2.1, List.mem_map_of_mem hentry⟩
    · cases ho
  · cases h

theorem nodup_shardObjects {shard : Shard} (h : (shard.entries.map Prod.fst).Nodup) :
    ((shardObjects limits shard).map Prod.fst).Nodup := by
  have hsub : ∀ entries : List (Text × FileEntry),
      ((entries.filterMap (regularObject limits shard.name)).map Prod.fst).Sublist
        (entries.map Prod.fst) := by
    intro entries
    induction entries with
    | nil => exact List.Sublist.slnil
    | cons entry entries ih =>
      rw [List.filterMap_cons, regularObject]
      split
      · exact ih.cons _
      · rename_i o ho
        split at ho
        · cases ho
          exact ih.cons_cons _
        · cases ho
  rw [shardObjects]
  split
  · exact h.sublist (hsub shard.entries)
  · exact List.nodup_nil

/-- A name of two characters in front of a hash is the directory of that hash. -/
theorem shard_eq {a b : Shard} {hash : Text} (ha : validShard a.name = true)
    (hb : validShard b.name = true) (hpa : a.name <+: hash) (hpb : b.name <+: hash) :
    a.name = b.name := by
  have hla : a.name.length = 2 := by
    simp only [validShard, decide_eq_true_eq] at ha
    exact ha.1
  have hlb : b.name.length = 2 := by
    simp only [validShard, decide_eq_true_eq] at hb
    exact hb.1
  rw [List.prefix_iff_eq_take.mp hpa, List.prefix_iff_eq_take.mp hpb, hla, hlb]

theorem nodup_objects (listing : Listing) :
    ((listing.shards.flatMap (shardObjects limits)).map Prod.fst).Nodup := by
  rw [List.map_flatMap, List.nodup_flatMap]
  refine ⟨fun shard hshard => nodup_shardObjects (listing.files shard hshard), ?_⟩
  have hnames : listing.shards.Pairwise fun a b => a.name ≠ b.name :=
    List.pairwise_map.mp listing.names
  apply hnames.imp
  intro a b hne hash ha hb
  obtain ⟨o, ho, rfl⟩ := List.mem_map.mp ha
  obtain ⟨o', ho', hsame⟩ := List.mem_map.mp hb
  obtain ⟨hva, hpa, -⟩ := mem_shardObjects ho
  obtain ⟨hvb, hpb, -⟩ := mem_shardObjects ho'
  rw [hsame] at hpb
  exact hne (shard_eq hva hvb hpa hpb)

/-- What a scan counts is what it lists. -/
theorem scan_ledger {listing : Listing} {ledger : AssetUsage × List (Text × Nat)}
    (h : scanRegularObjectLedger limits listing = .ok ledger) : Ledger ledger.1 ledger.2 := by
  have hnone : Ledger ⟨0, 0⟩ [] := ⟨rfl, rfl, List.nodup_nil⟩
  exact fold_ledger hnone (nodup_objects listing) (fun _ _ => List.not_mem_nil) h

theorem countFiles_ledger {store : AssetStore} {listing : Except FileFault Listing}
    {ledger : AssetUsage × List (Text × Nat)} (h : countFiles store listing = .ok ledger) :
    Ledger ledger.1 ledger.2 := by
  obtain ⟨files, -, h⟩ := bind_eq_ok_iff.mp h
  exact scan_ledger h

end Scan

section Underflow

def underflows : List Text :=
  ["asset reservation disk claim underflow".toList,
    "asset unmaterialized byte count underflow".toList,
    "asset reservation commit underflow".toList,
    "asset reservation commit disk claim underflow".toList,
    "asset reservation release underflow".toList,
    "asset reservation release disk claim underflow".toList]

def AssetError.isUnderflow : AssetError → Bool
  | .invariant message => message ∈ underflows
  | _ => false

/-- A computation that does not end in an underflow. -/
def Clean {α : Type} (x : Except AssetError α) : Prop := ∀ e, x = .error e → e.isUnderflow = false

variable {α β : Type}

theorem clean_ok (a : α) : Clean (.ok a : Except AssetError α) := fun _ h => by cases h

theorem clean_error {e : AssetError} (h : e.isUnderflow = false) :
    Clean (.error e : Except AssetError α) := by
  rintro _ ⟨⟩
  exact h

theorem clean_bind {x : Except AssetError α} {f : α → Except AssetError β} (hx : Clean x)
    (hf : ∀ a, x = .ok a → Clean (f a)) : Clean (x >>= f) := by
  intro e h
  rcases bind_eq_error_iff.mp h with h | ⟨a, ha, h⟩
  · exact hx e h
  · exact hf a ha e h

theorem clean_refuse {c : Prop} [Decidable c] {e : AssetError} (h : e.isUnderflow = false) :
    Clean (refuse c e) := by
  intro e' h'
  obtain ⟨-, rfl⟩ := refuse_eq_error_iff.mp h'
  exact h

theorem clean_orError {x : Option α} {e : AssetError} (h : e.isUnderflow = false) :
    Clean (orError x e) := by
  cases x with
  | none => exact clean_error h
  | some a => exact clean_ok a

theorem clean_orError_some {x : Option α} {e : AssetError} (h : x.isSome) : Clean (orError x e) := by
  cases x with
  | none => cases h
  | some a => exact clean_ok a

theorem clean_fault (x : Except FileFault α) : Clean (x.mapError FileFault.error) := by
  cases x with
  | ok a => exact clean_ok a
  | error e =>
    apply clean_error
    cases e <;> rfl

variable {store : AssetStore} {acc : AccountingState} {r : AssetReservation} {env : OpEnv}

theorem clean_validateAccounting : Clean (validateAccounting store acc) := clean_refuse rfl

theorem clean_validateCurrent : Clean (validateCurrent store acc env) :=
  clean_bind clean_validateAccounting fun _ _ =>
    clean_bind (clean_fault _) fun _ _ => clean_refuse rfl

theorem clean_checkFreeSpace {incoming used available total : Nat} :
    Clean (checkFreeSpace store incoming used available total) := clean_refuse rfl

theorem clean_reserve {incoming : Nat} : Clean (reserve store acc env incoming) :=
  clean_bind clean_validateCurrent fun _ _ => clean_bind (clean_fault _) fun _ _ =>
    clean_bind (clean_orError rfl) fun _ _ => clean_bind (clean_orError (by decide)) fun _ _ =>
      clean_bind clean_checkFreeSpace fun _ _ => clean_ok _

theorem clean_extendTotals {incoming : Nat} : Clean (extendTotals store acc env r incoming) :=
  clean_bind clean_validateCurrent fun _ _ => clean_bind (clean_refuse rfl) fun _ _ =>
    clean_bind (clean_fault _) fun _ _ => clean_bind (clean_orError rfl) fun _ _ =>
      clean_bind (clean_orError rfl) fun _ _ => clean_bind clean_checkFreeSpace fun _ _ => clean_ok _

theorem clean_extendReservation {incoming : Nat} :
    Clean (extendReservation store acc env r incoming).2.2 := by
  unfold extendReservation
  cases htotals : extendTotals store acc env r incoming with
  | error e => exact clean_error (clean_extendTotals e htotals)
  | ok totals =>
    cases checkedAdd r.bytes incoming with
    | none => exact clean_error (by decide)
    | some bytes =>
      cases checkedAdd r.unmaterialized incoming with
      | none => exact clean_error (by decide)
      | some claim => exact clean_ok ()

theorem checkedSub_isSome {a b : Nat} (h : b ≤ a) : (checkedSub a b).isSome := by
  rw [checkedSub, if_pos h]
  rfl

/-- An upload writes what it has claimed, and the claim is counted. -/
theorem clean_materializeReservation {written : Nat} (hwritten : written ≤ r.unmaterialized)
    (hclaim : claimAt acc.generation r ≤ acc.unmaterialized) :
    Clean (materializeReservation store acc r written).2.2 := by
  have hclean : Clean (materializeTotals store acc r written) := by
    refine clean_bind clean_validateAccounting fun _ hcurrent => clean_bind (clean_refuse rfl)
      fun _ hown => clean_bind (clean_orError_some (checkedSub_isSome hwritten)) fun _ _ =>
        clean_bind (clean_orError_some (checkedSub_isSome ?_)) fun _ _ => clean_ok _
    obtain ⟨hgen, hlive⟩ := not_foreign (validateAccounting_ok hcurrent) (refuse_eq_ok_iff.mp hown)
    rw [claimAt_live hgen hlive] at hclaim
    exact hwritten.trans hclaim
  unfold materializeReservation
  cases htotals : materializeTotals store acc r written with
  | error e => exact clean_error (hclean e htotals)
  | ok totals => exact clean_ok ()

theorem withoutReservation_succeeds (hgen : r.generation = acc.generation)
    (hlive : r.released = false) (hbytes : bytesAt acc.generation r ≤ acc.reserved)
    (hclaim : claimAt acc.generation r ≤ acc.unmaterialized) (what : Text) :
    withoutReservation acc r what =
      .ok (acc.reserved - r.bytes, acc.unmaterialized - r.unmaterialized) := by
  rw [bytesAt_live hgen hlive] at hbytes
  rw [claimAt_live hgen hlive] at hclaim
  simp only [withoutReservation, checkedSub, if_pos hbytes, if_pos hclaim, orError]
  rfl

theorem clean_withObject {hash : Text} {size : Nat} : Clean (withObject acc hash size) := by
  unfold withObject
  split
  · exact clean_ok _
  · exact clean_bind (clean_bind (clean_orError (by decide)) fun _ _ =>
      clean_bind (clean_orError (by decide)) fun _ _ => clean_ok _) fun _ _ => clean_ok _

theorem clean_commit (hlive : r.released = false)
    (hbytes : bytesAt acc.generation r ≤ acc.reserved)
    (hclaim : claimAt acc.generation r ≤ acc.unmaterialized) (hash : Text) (size : Nat) :
    Clean (commit acc r hash size).2.2 := by
  unfold commit
  split
  · exact clean_error rfl
  · rename_i hgen
    have hsame : r.generation = acc.generation := (not_not.mp hgen).symm
    have hclean : Clean (commitTotals acc r hash size) := by
      unfold commitTotals
      rw [withoutReservation_succeeds hsame hlive hbytes hclaim]
      exact clean_bind (clean_ok _) fun _ _ => clean_bind clean_withObject fun _ _ => clean_ok _
    cases htotals : commitTotals acc r hash size with
    | error e => exact clean_error (hclean e htotals)
    | ok totals => exact clean_ok ()

/-- A reservation whose bytes are counted can be let go. -/
theorem releaseInner_released (hbytes : bytesAt acc.generation r ≤ acc.reserved)
    (hclaim : claimAt acc.generation r ≤ acc.unmaterialized) :
    (releaseInner acc r).2.2 = .ok () ∧ (releaseInner acc r).2.1.released = true := by
  unfold releaseInner
  split
  · rename_i hreleased
    exact ⟨rfl, hreleased⟩
  rename_i hreleased
  split
  · exact ⟨rfl, rfl⟩
  · rename_i hgen
    rw [withoutReservation_succeeds (not_not.mp hgen).symm (eq_false_of_ne_true hreleased) hbytes
      hclaim]
    exact ⟨rfl, rfl⟩

end Underflow

section Steps
variable {s t : WorkspaceAssetState} {a : Action} {answer : Except AssetError Unit}

/-- The reservation that an action works on. -/
def Action.reservation : Action → Option Nat
  | .extend i _ _ _ | .materialize i _ | .commit i _ _ | .release i | .drop i => some i
  | _ => none

theorem Inv.counted (hinv : Inv s) {i : Nat} {h : Held} (hi : s.reservations[i]? = some h) :
    bytesAt s.accounting.generation h.reservation ≤ s.accounting.reserved ∧
      claimAt s.accounting.generation h.reservation ≤ s.accounting.unmaterialized := by
  have hbytes := le_tally (f := fun x => bytesAt s.accounting.generation x.reservation) hi
  have hclaim := le_tally (f := fun x => claimAt s.accounting.generation x.reservation) hi
  have hreserved := hinv.exact.reserved
  have hunmaterialized := hinv.exact.unmaterialized
  omega

theorem Inv.owner (hinv : Inv s) {i : Nat} {h : Held} (hi : s.reservations[i]? = some h) :
    Owned s.accounting.generation h :=
  hinv.owned h (List.mem_of_getElem? hi)

/-- What a step must keep: the accounts fit, no subtraction went below zero, and a reservation
that is not of this generation has left them alone. -/
structure Sound (s : WorkspaceAssetState) (older : Prop)
    (result : WorkspaceAssetState × Except AssetError Unit) : Prop where
  inv : Inv result.1
  clean : Clean result.2
  older : older → result.1.accounting = s.accounting

theorem sound_unlessError {α : Type} {x : Except AssetError α} {f : α → WorkspaceAssetState}
    (hinv : Inv s) (hclean : Clean x) (hf : ∀ a, x = .ok a → Inv (f a)) :
    Sound s False (unlessError s x f) := by
  cases hx : x with
  | error e => exact ⟨hinv, clean_error (hclean e hx), False.elim⟩
  | ok a => exact ⟨hf a hx, clean_ok (), False.elim⟩

theorem extendReservation_older {store : AssetStore} {acc : AccountingState} {env : OpEnv}
    {r : AssetReservation} (hclaim : r.unmaterialized ≤ r.bytes) (incoming : Nat)
    (h : r.generation ≠ acc.generation) :
    (extendReservation store acc env r incoming).1 = acc := by
  rcases extendReservation_cases hclaim incoming with ⟨e, heq⟩ | ⟨hgen, -, -⟩
  · rw [heq]
  · exact absurd hgen h

theorem materializeReservation_older {store : AssetStore} {acc : AccountingState}
    {r : AssetReservation} (written : Nat) (h : r.generation ≠ acc.generation) :
    (materializeReservation store acc r written).1 = acc := by
  rcases materializeReservation_cases written with ⟨e, heq⟩ | ⟨hgen, -, -⟩
  · rw [heq]
  · exact absurd hgen h

theorem commit_older {acc : AccountingState} {r : AssetReservation} (hash : Text) (size : Nat)
    (h : r.generation ≠ acc.generation) : (commit acc r hash size).1 = acc := by
  rw [commit, if_pos (Ne.symm h)]

theorem releaseInner_older {acc : AccountingState} {r : AssetReservation}
    (h : r.generation ≠ acc.generation) : (releaseInner acc r).1 = acc := by
  rw [releaseInner]
  split
  · rfl
  · rw [if_pos (Ne.symm h)]

theorem sound_extend (hinv : Inv s) {i : Nat} {store : AssetStore} {env : OpEnv} {incoming : Nat}
    {h : Held} (hi : s.reservations[i]? = some h)
    {result : WorkspaceAssetState × Except AssetError Unit}
    (hact : afterExtend s i store env incoming h = some result) :
    Sound s (h.reservation.generation ≠ s.accounting.generation) result := by
  have howner := hinv.owner hi
  simp only [afterExtend] at hact
  split at hact
  · cases hact
  rename_i hheld
  cases hact
  refine ⟨hinv.settle hi (extendReservation_balanced howner.claim incoming) ?_,
    clean_extendReservation, fun hold => extendReservation_older howner.claim incoming hold⟩
  rcases extendReservation_cases howner.claim incoming with ⟨e, heq⟩ | ⟨hgen, hlive, heq⟩
  · rw [heq]
    exact howner
  · rw [heq]
    have hclaim := howner.claim
    refine ⟨howner.generation, Nat.add_le_add_right hclaim incoming, ?_, ?_⟩
    · intro n hn
      cases hn
      exact Nat.le_add_left _ _
    · intro hreleased
      simp [hlive] at hreleased

theorem sound_materialize (hinv : Inv s) {i : Nat} {store : AssetStore} {h : Held}
    (hi : s.reservations[i]? = some h) {result : WorkspaceAssetState × Except AssetError Unit}
    (hact : afterMaterialize s i store h = some result) :
    Sound s (h.reservation.generation ≠ s.accounting.generation) result := by
  have howner := hinv.owner hi
  rw [afterMaterialize] at hact
  split at hact
  · rename_i written hclaimed
    cases hact
    have hwritten := howner.claimed written hclaimed
    refine ⟨hinv.settle hi (materializeReservation_balanced written) ?_,
      clean_materializeReservation hwritten (hinv.counted hi).2,
      fun hold => materializeReservation_older written hold⟩
    rcases materializeReservation_cases written with ⟨e, heq⟩ | ⟨hgen, hlive, hle, -, heq⟩
    · rw [heq]
      refine ⟨howner.generation, howner.claim, ?_, ?_⟩
      · intro n hn
        cases hn
        exact hwritten
      · intro hreleased
        have hdoomed := howner.released hreleased
        rw [hclaimed] at hdoomed
        cases hdoomed
    · rw [heq]
      refine ⟨howner.generation, (Nat.sub_le _ _).trans howner.claim, ?_, ?_⟩
      · intro n hn
        cases hn
      · intro hreleased
        simp [hlive] at hreleased
  · cases hact

/-- The owner that is left with a reservation of which it can only let go. -/
theorem owned_doomed {g : Nat} {h : Held} (howner : Owned g h) {r : AssetReservation}
    (hr : r = h.reservation ∨ r = { h.reservation with released := true }) :
    Owned g ⟨r, .doomed⟩ := by
  rcases hr with rfl | rfl
  · exact ⟨howner.generation, howner.claim, fun n hn => (by cases hn), fun _ => rfl⟩
  · exact ⟨howner.generation, howner.claim, fun n hn => (by cases hn), fun _ => rfl⟩

theorem commit_reservation (acc : AccountingState) (r : AssetReservation) (hash : Text) (size : Nat) :
    (commit acc r hash size).2.1 = r ∨ (commit acc r hash size).2.1 = { r with released := true } := by
  unfold commit
  split
  · exact .inr rfl
  · cases commitTotals acc r hash size with
    | error e => exact .inl rfl
    | ok totals => exact .inr rfl

theorem releaseInner_reservation (acc : AccountingState) (r : AssetReservation) :
    (releaseInner acc r).2.1 = r ∨ (releaseInner acc r).2.1 = { r with released := true } := by
  unfold releaseInner
  split
  · exact .inl rfl
  · split
    · exact .inr rfl
    · cases withoutReservation acc r "release".toList with
      | error e => exact .inl rfl
      | ok totals => exact .inr rfl

theorem sound_last (hinv : Inv s) {i : Nat} {op : AssetReservation → Result} {h : Held}
    (hi : s.reservations[i]? = some h) {result : WorkspaceAssetState × Except AssetError Unit}
    (hact : afterLast s i op h = some result)
    (hbal : h.reservation.released = false → Balanced s.accounting h.reservation (op h.reservation))
    (hclean : h.reservation.released = false → Clean (op h.reservation).2.2)
    (hres : (op h.reservation).2.1 = h.reservation ∨
      (op h.reservation).2.1 = { h.reservation with released := true })
    (holder : h.reservation.generation ≠ s.accounting.generation →
      (op h.reservation).1 = s.accounting) :
    Sound s (h.reservation.generation ≠ s.accounting.generation) result := by
  have howner := hinv.owner hi
  rw [afterLast] at hact
  split at hact
  · cases hact
  rename_i hheld
  cases hact
  have hlive : h.reservation.released = false :=
    eq_false_of_ne_true fun hreleased => hheld (howner.released hreleased)
  exact ⟨hinv.settle hi (hbal hlive) (owned_doomed howner hres), hclean hlive, holder⟩

theorem sound_drop (hinv : Inv s) {i : Nat} {h : Held} (hi : s.reservations[i]? = some h)
    {result : WorkspaceAssetState × Except AssetError Unit} (hact : afterDrop s i h = some result) :
    Sound s (h.reservation.generation ≠ s.accounting.generation) result := by
  cases hact
  obtain ⟨hbytes, hclaim⟩ := hinv.counted hi
  obtain ⟨hok, hreleased⟩ := releaseInner_released hbytes hclaim
  refine ⟨?_, ?_, fun hold => releaseInner_older hold⟩
  · exact hinv.eraseIdx hi releaseInner_balanced (bytesAt_released _ hreleased)
      (claimAt_released _ hreleased)
  · dsimp only
    rw [hok]
    exact clean_ok ()

theorem sound_onHeld {i : Nat} {f : Held → Option (WorkspaceAssetState × Except AssetError Unit)}
    {result : WorkspaceAssetState × Except AssetError Unit}
    (hact : onHeld s i f = some result)
    (hf : ∀ h, s.reservations[i]? = some h → f h = some result →
      Sound s (h.reservation.generation ≠ s.accounting.generation) result) :
    Sound s (∀ h, s.reservations[i]? = some h →
      h.reservation.generation ≠ s.accounting.generation) result := by
  obtain ⟨h, hi, hact⟩ := Option.bind_eq_some_iff.mp hact
  have hsound := hf h hi hact
  exact ⟨hsound.inv, hsound.clean, fun hold => hsound.older (hold h hi)⟩

theorem clean_countFiles {store : AssetStore} {listing : Except FileFault Listing} :
    Clean (countFiles store listing) := by
  refine clean_bind (clean_fault _) fun files _ => ?_
  have hfold : ∀ (objects : List (Text × Nat)) (start : AssetUsage × List (Text × Nat)),
      Clean (objects.foldlM countObject start) := by
    intro objects
    induction objects with
    | nil => exact fun start => clean_ok start
    | cons o objects ih =>
      intro start
      rw [List.foldlM_cons]
      exact clean_bind (clean_bind (clean_bind (clean_orError rfl) fun _ _ =>
        clean_bind (clean_orError rfl) fun _ _ => clean_ok _) fun _ _ => clean_ok _) fun _ _ => ih _
  exact hfold _ _

theorem clean_nextGeneration {acc : AccountingState} {binding : Option Text}
    {limits : Option AssetLimits} : Clean (nextGeneration acc binding limits) :=
  clean_bind (clean_orError (by decide)) fun _ _ => clean_ok _

theorem openAccounts_cases {acc after : AccountingState} {binding : Text} {limits : AssetLimits}
    {closed : Except FileFault Unit} {env : OpEnv}
    (h : openAccounts acc binding limits closed env = .ok after) :
    after = acc ∨ nextGeneration acc (some binding) (some limits) = .ok after := by
  obtain ⟨_, -, h⟩ := bind_eq_ok_iff.mp h
  obtain ⟨_, -, h⟩ := bind_eq_ok_iff.mp h
  obtain ⟨_, -, h⟩ := bind_eq_ok_iff.mp h
  obtain ⟨_, -, h⟩ := bind_eq_ok_iff.mp h
  split at h
  · obtain ⟨_, -, h⟩ := bind_eq_ok_iff.mp h
    split at h
    · cases h
      exact .inl rfl
    · exact .inr h
  · exact .inr h

theorem clean_openAccounts {acc : AccountingState} {binding : Text} {limits : AssetLimits}
    {closed : Except FileFault Unit} {env : OpEnv} :
    Clean (openAccounts acc binding limits closed env) := by
  refine clean_bind (clean_refuse rfl) fun _ _ => clean_bind (clean_fault _) fun _ _ =>
    clean_bind (clean_refuse (by decide)) fun _ _ => clean_bind (clean_refuse rfl) fun _ _ => ?_
  split
  · refine clean_bind (clean_fault _) fun _ _ => ?_
    split
    · exact clean_ok _
    · exact clean_nextGeneration
  · exact clean_nextGeneration

/-- The reservation that an action works on is of another generation. -/
def OfOlder (s : WorkspaceAssetState) (a : Action) : Prop :=
  ∃ i, a.reservation = some i ∧ ∀ h, s.reservations[i]? = some h →
    h.reservation.generation ≠ s.accounting.generation

theorem Sound.weaken {older older' : Prop} {result : WorkspaceAssetState × Except AssetError Unit}
    (h : Sound s older result) (hold : older' → older) : Sound s older' result :=
  ⟨h.inv, h.clean, fun h' => h.older (hold h')⟩

theorem act_sound (hinv : Inv s) {result : WorkspaceAssetState × Except AssetError Unit}
    (hact : act s a = some result) : Sound s (OfOlder s a) result := by
  have hnot : a.reservation = none → OfOlder s a → False := by
    rintro hnone ⟨i, hi, -⟩
    rw [hnone] at hi
    cases hi
  have hof : ∀ i, a.reservation = some i → OfOlder s a → ∀ h, s.reservations[i]? = some h →
      h.reservation.generation ≠ s.accounting.generation := by
    rintro i hi ⟨j, hj, hold⟩
    rw [hi] at hj
    cases hj
    exact hold
  cases a with
  | reserve store env incoming =>
    cases hact
    refine (sound_unlessError hinv clean_reserve fun result hok => ?_).weaken (hnot rfl)
    rw [reserve_ok hok]
    refine hinv.addHeld (r := ⟨incoming, incoming, s.accounting.generation, false⟩) rfl rfl
      ⟨Nat.le_refl _, Nat.le_refl _, ?_, fun h => (by cases h)⟩
    rintro n ⟨⟩
    exact Nat.le_refl _
  | newStager store env =>
    cases hact
    refine (sound_unlessError hinv clean_validateCurrent fun result hok => ?_).weaken (hnot rfl)
    have hgen : store.generation = s.accounting.generation := (validateCurrent_ok hok).symm
    exact hinv.addHeld (r := ⟨0, 0, store.generation, false⟩) hgen rfl
      ⟨Nat.le_of_eq hgen, Nat.le_refl _, fun n hn => (by cases hn), fun h => (by cases h)⟩
  | extend i store env incoming =>
    exact (sound_onHeld hact fun h hi => sound_extend hinv hi).weaken (hof i rfl)
  | materialize i store =>
    exact (sound_onHeld hact fun h hi => sound_materialize hinv hi).weaken (hof i rfl)
  | commit i hash size =>
    refine (sound_onHeld hact fun h hi hlast => ?_).weaken (hof i rfl)
    obtain ⟨hbytes, hclaim⟩ := hinv.counted hi
    exact sound_last hinv hi hlast (commit_balanced hash size)
      (fun hlive => clean_commit hlive hbytes hclaim hash size) (commit_reservation _ _ hash size)
      (commit_older hash size)
  | release i =>
    refine (sound_onHeld hact fun h hi hlast => ?_).weaken (hof i rfl)
    obtain ⟨hbytes, hclaim⟩ := hinv.counted hi
    have hok := (releaseInner_released hbytes hclaim).1
    refine sound_last hinv hi hlast (fun _ => releaseInner_balanced) (fun _ => ?_)
      (releaseInner_reservation _ _) releaseInner_older
    rw [hok]
    exact clean_ok ()
  | drop i => exact (sound_onHeld hact fun h hi => sound_drop hinv hi).weaken (hof i rfl)
  | registerExistingObject store hash size =>
    cases hact
    refine (sound_unlessError hinv (clean_bind clean_validateAccounting fun _ _ =>
      clean_withObject) fun ledger hok => ?_).weaken (hnot rfl)
    obtain ⟨_, -, hok⟩ := bind_eq_ok_iff.mp hok
    exact hinv.withLedger (withObject_ledger hinv.exact.ledger hok)
  | reconcileAccounting store listing =>
    cases hact
    refine (sound_unlessError hinv (clean_bind clean_countFiles fun _ _ =>
      clean_bind clean_validateAccounting fun _ _ => clean_ok _) fun ledger hok => ?_).weaken
        (hnot rfl)
    obtain ⟨counted, hcount, hok⟩ := bind_eq_ok_iff.mp hok
    obtain ⟨_, -, hok⟩ := bind_eq_ok_iff.mp hok
    cases hok
    exact hinv.withLedger (countFiles_ledger hcount)
  | recover store env repaired =>
    cases hact
    refine (sound_unlessError hinv (clean_bind clean_validateCurrent fun _ _ =>
      clean_countFiles) fun ledger hok => ?_).weaken (hnot rfl)
    obtain ⟨_, -, hok⟩ := bind_eq_ok_iff.mp hok
    exact hinv.withLedger (countFiles_ledger hok)
  | openWithState binding limits closed env =>
    cases hact
    refine (sound_unlessError hinv clean_openAccounts fun after hok => ?_).weaken (hnot rfl)
    rcases openAccounts_cases hok with rfl | hnext
    · exact hinv
    · exact hinv.nextGeneration hnext
  | recoverUnderGate store repaired =>
    cases hact
    refine (sound_unlessError hinv (clean_bind clean_countFiles fun _ _ =>
      clean_bind (clean_refuse rfl) fun _ _ => clean_ok _) fun ledger hok => ?_).weaken (hnot rfl)
    obtain ⟨counted, hcount, hok⟩ := bind_eq_ok_iff.mp hok
    obtain ⟨_, -, hok⟩ := bind_eq_ok_iff.mp hok
    cases hok
    exact hinv.withLedger (countFiles_ledger hcount)
  | invalidateWorkspaceStore =>
    cases hact
    exact (sound_unlessError hinv clean_nextGeneration fun after hok =>
      hinv.nextGeneration hok).weaken (hnot rfl)

theorem inv_initial : Inv initial :=
  ⟨⟨rfl, rfl, Nat.le_refl 0, ⟨rfl, rfl, List.nodup_nil⟩⟩, fun _ hh => (by cases hh)⟩

theorem inv_of_run {as : List Action} (h : run step initial as = some s) : Inv s := by
  refine @run_invariant _ _ _ (fun _ _ => True) Inv ?_ _ _ _ h
    (along_of_forall (fun _ _ _ => trivial) _) inv_initial
  intro s a t hs _ hstep
  obtain ⟨result, hact, rfl⟩ := Option.map_eq_some_iff.mp hstep
  exact (act_sound hs hact).inv

end Steps

section Runs

/-- In every state that the critical sections can reach, the counters are the sums they stand for;
no critical section goes below zero there, and none changes a counter for a reservation of an
older generation. -/
theorem accounting_exact (as : List Action) (s : WorkspaceAssetState)
    (h : run step initial as = some s) :
    Exact s ∧ ∀ a t answer, act s a = some (t, answer) →
      Clean answer ∧ (OfOlder s a → t.accounting = s.accounting) := by
  have hinv := inv_of_run h
  refine ⟨hinv.exact, fun a t answer hact => ?_⟩
  have hsound := act_sound hinv hact
  exact ⟨hsound.clean, hsound.older⟩

/-- A store that is opened again under another name while an upload is in flight. -/
def rebound : List Action :=
  let limits : AssetLimits := ⟨100, 0, 50, 80, 4, 60, 2, 2⟩
  let env : OpEnv := ⟨.ok (), true, .ok (1000, 2000)⟩
  let first : AssetStore := ⟨"first".toList, limits, 1⟩
  let second : AssetStore := ⟨"second".toList, limits, 2⟩
  let nothing : Listing := ⟨[], List.nodup_nil, nothing_listed⟩
  [.openWithState first.binding limits (.ok ()) env, .recoverUnderGate first (.ok nothing),
    .reserve first env 10, .materialize 0 first, .newStager first env, .extend 1 first env 5,
    .commit 0 "a hash".toList 10, .openWithState second.binding limits (.ok ()) env,
    .recoverUnderGate second (.ok nothing), .reserve second env 7]

theorem accounting_exact_rebound : ∃ s, run step initial rebound = some s ∧
    s.accounting.reserved = 7 ∧ s.reservations.length = 3 ∧ Exact s ∧
    ∀ t answer, act s (.drop 1) = some (t, answer) →
      Clean answer ∧ t.accounting = s.accounting := by
  have hrun : ((run step initial rebound).map fun s => (s.accounting.reserved,
      s.accounting.generation, s.reservations.map fun h => h.reservation.generation)) =
        some (7, 2, [1, 1, 2]) := by decide +kernel
  obtain ⟨s, hs, hsum⟩ := Option.map_eq_some_iff.mp hrun
  obtain ⟨hreserved, hgen, hold⟩ : s.accounting.reserved = 7 ∧ s.accounting.generation = 2 ∧
      s.reservations.map (fun h => h.reservation.generation) = [1, 1, 2] := by
    simpa using hsum
  obtain ⟨hexact, hact⟩ := accounting_exact rebound s hs
  refine ⟨s, hs, hreserved, by simpa using congrArg List.length hold, hexact, ?_⟩
  intro t answer hdrop
  obtain ⟨hclean, hsame⟩ := hact (.drop 1) t answer hdrop
  refine ⟨hclean, hsame ⟨1, rfl, fun h hh => ?_⟩⟩
  have hone : (s.reservations.map fun h => h.reservation.generation)[1]? =
      some h.reservation.generation := by
    rw [List.getElem?_map, hh]
    rfl
  rw [hold] at hone
  have hgeneration : 1 = h.reservation.generation := Option.some.inj hone
  omega

end Runs

end AssetAccounting
