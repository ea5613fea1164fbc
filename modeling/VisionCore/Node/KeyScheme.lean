import VisionCore.Foundation.Tagged
import VisionCore.Node.Restore

/-!
# The key scheme

The database is one ordered map whose keys are texts.  A key starts with the name of
what it holds, and a height follows as decimal digits.  The typed database forgets the
texts; here it is compared with the map itself.
-/

namespace VisionCore

open Std
open Foundation

/-!
# Heights as digits
-/

def decimal (n : UInt64) : List Char :=
  Nat.toDigits 10 n.toNat

/-- Read a `u64`: digits after at most one plus sign, with any number of leading zeros. -/
def parseU64 (text : List Char) : Option UInt64 :=
  let digits := if text.head? = some '+' then text.tail else text
  if digits = [] ∨ digits.all Char.isDigit = false then none
  else
    let n := Nat.ofDigitChars 10 digits 0
    if n < UInt64.size then some (UInt64.ofNat n) else none

theorem decimal_isDigit {n : UInt64} {c : Char} (hc : c ∈ decimal n) : c.isDigit = true :=
  Nat.isDigit_of_mem_toDigits (by decide) (by decide) hc

theorem parseU64_decimal (n : UInt64) : parseU64 (decimal n) = some n := by
  have hsign : (decimal n).head? ≠ some '+' := by
    intro hplus
    have hdigit := decimal_isDigit (List.mem_of_head? hplus)
    revert hdigit
    decide
  have hdigits : ¬(decimal n = [] ∨ (decimal n).all Char.isDigit = false) := by
    rintro (hnil | hother)
    · exact Nat.toDigits_ne_nil hnil
    · rw [List.all_eq_true.mpr fun c hc => decimal_isDigit hc] at hother
      cases hother
  have hvalue : Nat.ofDigitChars 10 (decimal n) 0 = n.toNat :=
    Nat.ofDigitChars_toDigits (by decide) (by decide)
  unfold parseU64
  dsimp only
  rw [if_neg hsign, if_neg hdigits, hvalue, if_pos n.toNat_lt, UInt64.ofNat_toNat]

/-!
# Keys as texts
-/

inductive KeyKind where
  | block
  | height
  | tipHeight
  | tipHash
  | genesisHash
  | snapshot
  | snapshotStateRoot
  | snapBalances
  | snapNonces
deriving DecidableEq, Repr

/-- What the keys of a kind start with. -/
def KeyKind.tag : KeyKind -> List Char
  | .block => "block:".toList
  | .height => "height:".toList
  | .tipHeight => "meta:tip_height".toList
  | .tipHash => "meta:tip_hash".toList
  | .genesisHash => "meta:genesis_hash".toList
  | .snapshot => "meta:snapshot:".toList
  | .snapshotStateRoot => "meta:snapshot_state_root:".toList
  | .snapBalances => "snap:balances:".toList
  | .snapNonces => "snap:nonces:".toList

def DbKey.kind : DbKey -> KeyKind
  | .block _ => .block
  | .height _ => .height
  | .tipHeight => .tipHeight
  | .tipHash => .tipHash
  | .genesisHash => .genesisHash
  | .snapshot _ => .snapshot
  | .snapshotStateRoot _ => .snapshotStateRoot
  | .snapBalances _ => .snapBalances
  | .snapNonces _ => .snapNonces

/-- What follows the tag. -/
def DbKey.ending : DbKey -> List Char
  | .block hash => hash.toList
  | .height n => decimal n
  | .tipHeight => []
  | .tipHash => []
  | .genesisHash => []
  | .snapshot n => decimal n
  | .snapshotStateRoot n => decimal n
  | .snapBalances n => decimal n
  | .snapNonces n => decimal n

/-- The text under which a key is stored. -/
def DbKey.text (key : DbKey) : String :=
  String.ofList (key.kind.tag ++ key.ending)

theorem keyKind_prefixFree : PrefixFree KeyKind.tag := by
  intro kind kind' h
  cases kind <;> cases kind' <;> first | rfl | exact absurd h (by decide)

/-- The key of a kind that has the given ending. -/
def KeyKind.read : KeyKind -> List Char -> Option DbKey
  | .block, ending => some (.block (String.ofList ending))
  | .height, ending => (parseU64 ending).map DbKey.height
  | .tipHeight, _ => some .tipHeight
  | .tipHash, _ => some .tipHash
  | .genesisHash, _ => some .genesisHash
  | .snapshot, ending => (parseU64 ending).map DbKey.snapshot
  | .snapshotStateRoot, ending => (parseU64 ending).map DbKey.snapshotStateRoot
  | .snapBalances, ending => (parseU64 ending).map DbKey.snapBalances
  | .snapNonces, ending => (parseU64 ending).map DbKey.snapNonces

theorem DbKey.read_ending (key : DbKey) : key.kind.read key.ending = some key := by
  cases key with
  | block hash => simp [kind, ending, KeyKind.read]
  | height n => simp [kind, ending, KeyKind.read, parseU64_decimal]
  | tipHeight => rfl
  | tipHash => rfl
  | genesisHash => rfl
  | snapshot height => simp [kind, ending, KeyKind.read, parseU64_decimal]
  | snapshotStateRoot height => simp [kind, ending, KeyKind.read, parseU64_decimal]
  | snapBalances height => simp [kind, ending, KeyKind.read, parseU64_decimal]
  | snapNonces height => simp [kind, ending, KeyKind.read, parseU64_decimal]

theorem DbKey.text_inj {key key' : DbKey} (h : key.text = key'.text) : key = key' := by
  have happend : key.kind.tag ++ key.ending = key'.kind.tag ++ key'.ending := by
    have hlist := congrArg String.toList h
    unfold DbKey.text at hlist
    rwa [String.toList_ofList, String.toList_ofList] at hlist
  rcases keyKind_prefixFree.append_inj happend with ⟨hkind, hending⟩
  have hread := key.read_ending
  rw [hkind, hending, key'.read_ending] at hread
  exact (Option.some.inj hread).symm

/-!
# The store of texts
-/

/-- The ordered map that the database is. -/
abbrev TextStore := ExtTreeMap String DbValue

namespace TextStore

def write (store : TextStore) : DbOp -> TextStore
  | .insert key value => store.insert key.text value
  | .remove key => store.erase key.text

def writeBatch (store : TextStore) (batch : List DbOp) : TextStore :=
  batch.foldl write store

/-- The values under the texts of the typed keys. -/
def typed (store : TextStore) : Db where
  entries := fun key => store[key.text]?

theorem typed_write (store : TextStore) (op : DbOp) :
    (store.write op).typed = store.typed.apply op := by
  have hkeys : forall key key' : DbKey, key.text = key'.text ↔ key' = key := fun key key' =>
    ⟨fun h => (DbKey.text_inj h).symm, fun h => by rw [h]⟩
  cases op with
  | insert key value =>
      unfold typed write Db.apply
      simp only [getElem?_insert_ite, hkeys]
  | remove key =>
      unfold typed write Db.apply
      simp only [getElem?_erase_ite, hkeys]

/-- Writing under texts is writing under typed keys: no two keys share a text. -/
theorem typed_writeBatch (store : TextStore) (batch : List DbOp) :
    (store.writeBatch batch).typed = store.typed.applyBatch batch := by
  induction batch generalizing store with
  | nil => rfl
  | cons op rest ih =>
      have hrest := ih (store.write op)
      rw [typed_write] at hrest
      exact hrest

/-!
# The scan for snapshots
-/

def scanPrefix (store : TextStore) (start : List Char) : List (String × DbValue) :=
  store.toList.filter fun row => start.isPrefixOf row.1.toList

/-- The heights that the keys of the snapshots tell, newest first. -/
def scanSnapshotHeights (store : TextStore) (maxHeight : UInt64) : List UInt64 :=
  let heights := (store.scanPrefix KeyKind.snapshot.tag).filterMap fun row =>
    (row.1.toList.dropPrefix? KeyKind.snapshot.tag).bind parseU64
  (heights.filter fun height => height ≤ maxHeight).mergeSort fun a b => b ≤ a

def restoreLatestSnapshot (P : Platform) (g : ChainState) (store : TextStore)
    (maxHeight : UInt64) : Except (Stop RestoreError) (ChainState × UInt64) :=
  restoreFirst P g maxHeight (store.scanSnapshotHeights maxHeight)

variable {P : Platform} {g : ChainState} {store : TextStore} {height maxHeight : UInt64}

theorem scanSnapshotHeights_sorted :
    (store.scanSnapshotHeights maxHeight).Pairwise fun a b => b.toNat ≤ a.toNat := by
  unfold scanSnapshotHeights
  refine (List.pairwise_mergeSort ?_ ?_ _).imp fun h =>
    UInt64.le_iff_toNat_le.mp (of_decide_eq_true h)
  · intro a b c hab hbc
    exact decide_eq_true (UInt64.le_trans (of_decide_eq_true hbc) (of_decide_eq_true hab))
  · intro a b
    rw [Bool.or_eq_true, decide_eq_true_iff, decide_eq_true_iff]
    exact (UInt64.le_total a b).symm

theorem scanSnapshotHeights_le (h : height ∈ store.scanSnapshotHeights maxHeight) :
    height.toNat ≤ maxHeight.toNat := by
  unfold scanSnapshotHeights at h
  have hle := (List.mem_filter.mp (List.mem_mergeSort.mp h)).2
  exact UInt64.le_iff_toNat_le.mp (of_decide_eq_true hle)

/-- A stored snapshot is found. -/
theorem mem_scanSnapshotHeights {value : DbValue} (hle : height.toNat ≤ maxHeight.toNat)
    (h : store.typed.get (.snapshot height) = some value) :
    height ∈ store.scanSnapshotHeights maxHeight := by
  have hrow : ((DbKey.snapshot height).text, value) ∈ store.toList := by
    exact ExtTreeMap.mem_toList_iff_getElem?_eq_some.mpr h
  have htext : (DbKey.snapshot height).text.toList = KeyKind.snapshot.tag ++ decimal height :=
    String.toList_ofList
  unfold scanSnapshotHeights
  rw [List.mem_mergeSort, List.mem_filter]
  refine ⟨List.mem_filterMap.mpr ⟨_, List.mem_filter.mpr ⟨hrow, ?_⟩, ?_⟩,
    decide_eq_true (UInt64.le_iff_toNat_le.mpr hle)⟩
  · rw [htext]
    exact List.isPrefixOf_iff_prefix.mpr (List.prefix_append _ _)
  · have hdrop : (KeyKind.snapshot.tag ++ decimal height).dropPrefix? KeyKind.snapshot.tag =
        some (decimal height) :=
      List.dropPrefix?_eq_some_iff.mpr ⟨_, rfl, beq_self_eq_true _⟩
    dsimp only
    rw [htext, hdrop, Option.bind_some, parseU64_decimal]

end TextStore

/-!
# Restoring through the scan
-/

section Restore

variable {P : Platform} {g : ChainState} {store : TextStore} {height maxHeight : UInt64}

theorem restoreFirst_skip {heights : List UInt64} {e : RestoreError}
    (h : restoreSnapshotAt P g height = .error (.err e)) :
    restoreFirst P g maxHeight (height :: heights) = restoreFirst P g maxHeight heights := by
  rw [restoreFirst, h]

/-- Of two listings in falling order, one may repeat heights and hold some without a snapshot. -/
theorem restoreFirst_sorted {scanned heights : List UInt64}
    (hscanned : scanned.Pairwise fun a b => b.toNat ≤ a.toNat)
    (hheights : heights.Pairwise fun a b => b.toNat < a.toNat)
    (hfound : forall height, height ∈ heights -> height ∈ scanned)
    (hmissing : forall height, height ∈ scanned -> height ∉ heights ->
      exists e, restoreSnapshotAt P g height = .error (.err e)) :
    restoreFirst P g maxHeight scanned = restoreFirst P g maxHeight heights := by
  induction scanned generalizing heights with
  | nil =>
      have hnil : heights = [] := List.eq_nil_iff_forall_not_mem.mpr fun height hmem =>
        List.not_mem_nil (hfound height hmem)
      rw [hnil]
  | cons newest rest ih =>
      rw [List.pairwise_cons] at hscanned
      by_cases hmem : newest ∈ heights
      · cases heights with
        | nil => exact absurd hmem List.not_mem_nil
        | cons head others =>
            rw [List.pairwise_cons] at hheights
            have hhead : head = newest := by
              rcases List.mem_cons.mp hmem with heq | hlater
              · exact heq.symm
              · have hlt := hheights.1 newest hlater
                rcases List.mem_cons.mp (hfound head List.mem_cons_self) with heq | hrest
                · exact heq
                · exact absurd hlt (Nat.not_lt.mpr (hscanned.1 head hrest))
            subst hhead
            cases hat : restoreSnapshotAt P g head with
            | ok restored => rw [restoreFirst, restoreFirst, hat]
            | error stop =>
                cases stop with
                | fault f => rw [restoreFirst, restoreFirst, hat]
                | err e =>
                    rw [restoreFirst_skip hat, restoreFirst_skip hat]
                    refine ih hscanned.2 hheights.2 ?_ ?_
                    · intro height hheight
                      rcases List.mem_cons.mp (hfound height (List.mem_cons_of_mem _ hheight)) with
                        heq | hrest
                      · exact absurd (hheights.1 height hheight) (heq ▸ Nat.lt_irrefl _)
                      · exact hrest
                    · intro height hheight hother
                      by_cases heq : height = head
                      · exact ⟨e, heq ▸ hat⟩
                      · refine hmissing height (List.mem_cons_of_mem _ hheight) ?_
                        exact fun h => (List.mem_cons.mp h).elim heq hother
      · rcases hmissing newest List.mem_cons_self hmem with ⟨e, hat⟩
        rw [restoreFirst_skip hat]
        refine ih hscanned.2 hheights ?_ ?_
        · intro height hheight
          rcases List.mem_cons.mp (hfound height hheight) with heq | hrest
          · exact absurd (heq ▸ hheight) hmem
          · exact hrest
        · exact fun height hheight => hmissing height (List.mem_cons_of_mem _ hheight)

theorem restoreSnapshotAt_missing (h : g.db.get (.snapshot height) = none) :
    restoreSnapshotAt P g height = .error (.err .missingMetadata) := by
  unfold restoreSnapshotAt loadSnapshot loadSnapshotMeta
  rw [h]
  rfl

/-- The scan of the texts restores what the listing of the heights restores, whatever other
keys the store holds and however they spell a height. -/
theorem restoreLatestSnapshot_scanned (g : ChainState) (store : TextStore) (maxHeight : UInt64) :
    store.restoreLatestSnapshot P { g with db := store.typed } maxHeight =
      restoreLatestSnapshot P { g with db := store.typed } maxHeight := by
  refine restoreFirst_sorted TextStore.scanSnapshotHeights_sorted
    (snapshotHeights_sorted store.typed maxHeight) ?_ ?_
  · intro height hheight
    rcases mem_snapshotHeights.mp hheight with ⟨hle, hsome⟩
    rcases Option.isSome_iff_exists.mp hsome with ⟨value, hvalue⟩
    exact TextStore.mem_scanSnapshotHeights hle hvalue
  · intro height hheight hother
    have hnone : store.typed.get (.snapshot height) = none := by
      by_contra hsome
      exact hother (mem_snapshotHeights.mpr
        ⟨TextStore.scanSnapshotHeights_le hheight, Option.isSome_iff_ne_none.mpr hsome⟩)
    exact ⟨_, restoreSnapshotAt_missing hnone⟩

end Restore

end VisionCore
