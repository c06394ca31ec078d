import MetriEngine.Foundation.HashChains
import MetriEngine.Storage.LedgerAtomicity

/-!
# The journal chain of the ledger

Each journal entry that is posted seals the tip of the chain before it with its time and its sum.
Whatever calls come between, the audit headers are the links of that chain, and its tip tells which
entries were posted.
-/
namespace MetriEngine.Storage.FinancialLedger
open Foundation

/-! ### Runs of calls -/

/-- A call on the zone, or a new exchange rate. -/
inductive ZoneAction
  | call (call : ZoneCall)
  | setExchangeRate (currencyCode : String) (rateToBase : ℤ)

namespace JournaledZone

def setExchangeRate (z : JournaledZone) (currencyCode : String) (rateToBase : ℤ) : JournaledZone :=
  { z with fxRatesToBase := z.fxRatesToBase.insert currencyCode rateToBase }

/-- The zone after an action, whether it succeeds or fails. -/
def act [ChainDigest] (z : JournaledZone) : ZoneAction → JournaledZone
  | .call call => (z.perform call).1
  | .setExchangeRate currencyCode rateToBase => z.setExchangeRate currencyCode rateToBase

def run [ChainDigest] (z : JournaledZone) (actions : List ZoneAction) : JournaledZone :=
  actions.foldl act z

@[simp] theorem run_nil [ChainDigest] (z : JournaledZone) : z.run [] = z := rfl

@[simp] theorem run_concat [ChainDigest] (z : JournaledZone) (actions : List ZoneAction)
    (action : ZoneAction) : z.run (actions ++ [action]) = (z.run actions).act action := by
  simp [run]

end JournaledZone

def InI64 (z : ℤ) : Prop := -2 ^ 63 ≤ z ∧ z < 2 ^ 63

def InI128 (z : ℤ) : Prop := -2 ^ 127 ≤ z ∧ z < 2 ^ 127

/-- The arguments are of the types that the zone takes. -/
def ZoneAction.Typed : ZoneAction → Prop
  | .call (.recordJournalEntry txEpochMs debits credits) =>
    InI64 txEpochMs ∧ ∀ amount ∈ debits ++ credits, InI128 amount
  | .call (.ledger (.receiveBatch batchId resourceRowId receivedMs expiryMs qty unitCostBase)) =>
    (batchId < 2 ^ 32 ∧ resourceRowId < 2 ^ 32) ∧ (InI64 receivedMs ∧ InI64 expiryMs) ∧
      InI128 qty ∧ InI128 unitCostBase
  | .call (.ledger (.issueInventory txEpochMs issueQty _)) => InI64 txEpochMs ∧ InI128 issueQty
  | .setExchangeRate _ rateToBase => InI128 rateToBase

theorem wrapI128_bounds (z : ℤ) : InI128 (wrapI128 z) := by
  have hlow := Int.emod_nonneg (z + 2 ^ 127) (by norm_num : (2 ^ 128 : ℤ) ≠ 0)
  have hhigh := Int.emod_lt_of_pos (z + 2 ^ 127) (by norm_num : (0 : ℤ) < 2 ^ 128)
  rw [wrapI128]
  constructor <;> omega

theorem sumRaw_bounds (amounts : List ℤ) : InI128 (sumRaw amounts) := by
  cases amounts using List.reverseRecOn with
  | nil => exact ⟨by norm_num [sumRaw], by norm_num [sumRaw]⟩
  | append_singleton amounts amount =>
    rw [sumRaw, List.foldl_concat]
    exact wrapI128_bounds _

/-! ### Entries and their seals -/

/-- The time of a posted entry and the sum of each of its sides. -/
abbrev PostedEntry := ℤ × ℤ

/-- The entry that an action posts where the books are closed up to `fiscalLockEpochMs`. -/
def ZoneAction.posted (fiscalLockEpochMs : ℤ) : ZoneAction → Option PostedEntry
  | .call (.recordJournalEntry txEpochMs debits credits) =>
    if fiscalLockEpochMs < txEpochMs ∧ sumRaw debits = sumRaw credits then
      some (txEpochMs, sumRaw debits)
    else none
  | _ => none

def postedBy (fiscalLockEpochMs : ℤ) (actions : List ZoneAction) : List PostedEntry :=
  actions.filterMap (ZoneAction.posted fiscalLockEpochMs)

/-- A call on the layers leaves the books closed as they were. -/
theorem receiveBatch_lock (z : FinancialLedgerZone) (batchId resourceRowId : ℕ)
    (receivedMs expiryMs qty unitCostBase : ℤ) :
    (z.receiveBatch batchId resourceRowId receivedMs expiryMs qty unitCostBase).1.fiscalLockEpochMs =
      z.fiscalLockEpochMs := by
  unfold FinancialLedgerZone.receiveBatch
  dsimp only
  split
  · rfl
  · split <;> rfl

theorem issueInventory_lock (z : FinancialLedgerZone) (txEpochMs issueQty : ℤ)
    (method : ValuationMethod) :
    (z.issueInventory txEpochMs issueQty method).1.fiscalLockEpochMs = z.fiscalLockEpochMs := by
  unfold FinancialLedgerZone.issueInventory
  dsimp only
  split
  · rfl
  · split
    · rfl
    · split
      · rfl
      · unfold FinancialLedgerZone.finishIssue
        split
        · rfl
        · split <;> rfl

/-! ### The words of an entry -/

/-- An entry in the range of its words. -/
def EntryFits (entry : PostedEntry) : Prop := InI64 entry.1 ∧ InI128 entry.2

theorem posted_fits {fiscalLockEpochMs : ℤ} {action : ZoneAction} (htyped : action.Typed)
    {entry : PostedEntry} (h : action.posted fiscalLockEpochMs = some entry) : EntryFits entry := by
  cases action with
  | setExchangeRate currencyCode rateToBase => cases h
  | call call =>
    cases call with
    | ledger call => cases h
    | recordJournalEntry txEpochMs debits credits =>
      rw [ZoneAction.posted] at h
      split_ifs at h
      cases h
      exact ⟨htyped.1, sumRaw_bounds debits⟩

theorem postedBy_fits {fiscalLockEpochMs : ℤ} {actions : List ZoneAction}
    (htyped : ∀ action ∈ actions, action.Typed) :
    ∀ entry ∈ postedBy fiscalLockEpochMs actions, EntryFits entry := by
  intro entry hentry
  obtain ⟨action, haction, hposted⟩ := List.mem_filterMap.mp hentry
  exact posted_fits (htyped action haction) hposted

theorem writeI64_inj {a b : ℤ} (ha : InI64 a) (hb : InI64 b) (h : writeI64 a = writeI64 b) :
    a = b := by
  have hread := reads_i64 (corrupt "") ha.1 ha.2 []
  rw [h, reads_i64 (corrupt "") hb.1 hb.2 []] at hread
  cases hread
  rfl

/-- `i128::from_le_bytes` -/
def readI128 (err : DomainError) : MbfReader ℤ := (fun n : ℕ => wrapI128 n) <$> readLe 16 err

theorem reads_i128 (err : DomainError) {z : ℤ} (h : InI128 z) :
    Reads (readI128 err) (writeI128 z) z := by
  obtain ⟨hlo, hhi⟩ := h
  have hnonneg := Int.emod_nonneg z (by norm_num : (2 ^ 128 : ℤ) ≠ 0)
  have hlt := Int.emod_lt_of_pos z (by norm_num : (0 : ℤ) < 2 ^ 128)
  have hread := (reads_readLe err (x := (z % 2 ^ 128).toNat) (n := 16) (by omega)).map
    fun n : ℕ => wrapI128 n
  have hvalue : wrapI128 ((z % 2 ^ 128).toNat : ℕ) = z := by
    rw [Int.toNat_of_nonneg hnonneg, wrapI128]
    omega
  rw [hvalue] at hread
  exact hread

theorem writeI128_inj {a b : ℤ} (ha : InI128 a) (hb : InI128 b) (h : writeI128 a = writeI128 b) :
    a = b := by
  have hread := reads_i128 (corrupt "") ha []
  rw [h, reads_i128 (corrupt "") hb []] at hread
  cases hread
  rfl

/-- The bytes that are sealed. -/
def sealedText (tip : List Byte) (entry : PostedEntry) : List Byte :=
  tip ++ writeI64 entry.1 ++ writeI128 entry.2

/-- They tell the tip and the entry. -/
theorem sealedText_inj {tip tip' : List Byte} {entry entry' : PostedEntry}
    (hlen : tip.length = tip'.length) (hentry : EntryFits entry) (hentry' : EntryFits entry')
    (h : sealedText tip entry = sealedText tip' entry') : tip = tip' ∧ entry = entry' := by
  rw [sealedText, sealedText, List.append_assoc, List.append_assoc] at h
  obtain ⟨htip, h⟩ := List.append_inj h hlen
  obtain ⟨htime, hsum⟩ := List.append_inj h (by simp [writeI64])
  exact ⟨htip, Prod.ext (writeI64_inj hentry.1 hentry'.1 htime) (writeI128_inj hentry.2 hentry'.2 hsum)⟩

/-! ### The chain -/

section Chain
variable [ChainDigest]

def sealEntry (tip : List Byte) (entry : PostedEntry) : List Byte :=
  ChainDigest.sha256 (sealedText tip entry)

/-- The tip of a journal without entries. -/
def genesisTip : List Byte := List.replicate 32 0

def headerOf (pair : List Byte × PostedEntry) : LedgerAuditHeader :=
  ⟨pair.1, sealEntry pair.1 pair.2⟩

/-- The journal of the zone is the chain of these entries. -/
structure Journals (fiscalLockEpochMs : ℤ) (entries : List PostedEntry) (z : JournaledZone) :
    Prop where
  lock : z.fiscalLockEpochMs = fiscalLockEpochMs
  tip : z.merkleChainTip = HashChain.tipAfter sealEntry genesisTip entries
  headers : z.auditHeaders = (HashChain.stamped sealEntry genesisTip entries).map headerOf

variable {fiscalLockEpochMs : ℤ} {entries : List PostedEntry} {z : JournaledZone}

theorem Journals.congr (h : Journals fiscalLockEpochMs entries z) {z' : JournaledZone}
    (hlock : z'.fiscalLockEpochMs = z.fiscalLockEpochMs)
    (htip : z'.merkleChainTip = z.merkleChainTip) (hheaders : z'.auditHeaders = z.auditHeaders) :
    Journals fiscalLockEpochMs entries z' :=
  ⟨hlock.trans h.lock, htip.trans h.tip, hheaders.trans h.headers⟩

theorem Journals.recordJournalEntry (h : Journals fiscalLockEpochMs entries z) (txEpochMs : ℤ)
    (debits credits : List ℤ) :
    Journals fiscalLockEpochMs
      (entries ++ ((ZoneAction.call (.recordJournalEntry txEpochMs debits credits)).posted
        fiscalLockEpochMs).toList)
      (z.recordJournalEntry txEpochMs debits credits).1 := by
  simp only [ZoneAction.posted, JournaledZone.recordJournalEntry, h.lock]
  by_cases hclosed : txEpochMs ≤ fiscalLockEpochMs
  · simpa [hclosed, not_lt.mpr hclosed] using h
  · by_cases hsums : sumRaw debits = sumRaw credits
    · simp only [hclosed, hsums, not_le.mp hclosed, and_self, if_true, if_false, ne_eq,
        not_true_eq_false, Option.toList_some]
      constructor
      · exact h.lock
      · simp [sealEntry, sealedText, h.tip]
      · simp [headerOf, sealEntry, sealedText, h.tip, h.headers]
    · simpa [hclosed, hsums] using h

/-- An action extends the chain by the entry it posts, if any. -/
theorem Journals.act (h : Journals fiscalLockEpochMs entries z) (action : ZoneAction) :
    Journals fiscalLockEpochMs (entries ++ (action.posted fiscalLockEpochMs).toList)
      (z.act action) := by
  cases action with
  | call call =>
    cases call with
    | recordJournalEntry txEpochMs debits credits => exact h.recordJournalEntry txEpochMs debits credits
    | ledger call =>
      rw [show (ZoneAction.call (.ledger call)).posted fiscalLockEpochMs = none from rfl,
        Option.toList_none, List.append_nil]
      cases call with
      | receiveBatch batchId resourceRowId receivedMs expiryMs qty unitCostBase =>
        exact h.congr (receiveBatch_lock ..) rfl rfl
      | issueInventory txEpochMs issueQty method => exact h.congr (issueInventory_lock ..) rfl rfl
  | setExchangeRate currencyCode rateToBase =>
    rw [show (ZoneAction.setExchangeRate currencyCode rateToBase).posted fiscalLockEpochMs = none
      from rfl, Option.toList_none, List.append_nil]
    exact h.congr rfl rfl rfl

theorem journals_new (fiscalLockEpochMs : ℤ) :
    Journals fiscalLockEpochMs [] (JournaledZone.new fiscalLockEpochMs) :=
  ⟨rfl, rfl, rfl⟩

theorem journals_run (fiscalLockEpochMs : ℤ) (actions : List ZoneAction) :
    Journals fiscalLockEpochMs (postedBy fiscalLockEpochMs actions)
      ((JournaledZone.new fiscalLockEpochMs).run actions) := by
  induction actions using List.reverseRecOn with
  | nil => exact journals_new fiscalLockEpochMs
  | append_singleton actions action ih =>
    rw [JournaledZone.run_concat, postedBy, List.filterMap_append]
    have hposted : [action].filterMap (ZoneAction.posted fiscalLockEpochMs) =
        (action.posted fiscalLockEpochMs).toList := by
      cases haction : action.posted fiscalLockEpochMs <;> simp [haction]
    rw [hposted]
    exact ih.act action

/-! ### The audit trail -/

/-- Walking the headers from `tip`: each names the tip before it, its root is the seal of its entry,
and the last root is `last`. -/
def Chained : List Byte → List LedgerAuditHeader → List PostedEntry → List Byte → Prop
  | tip, [], [], last => tip = last
  | tip, header :: headers, entry :: entries, last =>
    header = ⟨tip, sealEntry tip entry⟩ ∧ Chained (sealEntry tip entry) headers entries last
  | _, _, _, _ => False

/-- A trail is the chain of its entries, and ends in their tip. -/
theorem chained_iff {tip last : List Byte} {headers : List LedgerAuditHeader} :
    Chained tip headers entries last ↔
      headers = (HashChain.stamped sealEntry tip entries).map headerOf ∧
        HashChain.tipAfter sealEntry tip entries = last := by
  induction entries generalizing tip headers with
  | nil => cases headers <;> simp [Chained]
  | cons entry entries ih =>
    cases headers with
    | nil => simp [Chained]
    | cons header headers => simp [Chained, ih, headerOf, and_assoc]

/-- Along every run of calls and rates, failed calls among them, the audit headers chain the zeros of
a new journal to its tip: one header for each entry that was posted, in their order. -/
theorem audit_headers_chain (fiscalLockEpochMs : ℤ) (actions : List ZoneAction) :
    Chained genesisTip ((JournaledZone.new fiscalLockEpochMs).run actions).auditHeaders
      (postedBy fiscalLockEpochMs actions)
      ((JournaledZone.new fiscalLockEpochMs).run actions).merkleChainTip := by
  have hrun := journals_run fiscalLockEpochMs actions
  rw [chained_iff, hrun.headers, hrun.tip]
  exact ⟨rfl, rfl⟩

/-! ### What the tip tells -/

/-- The texts that are sealed along the chain of these entries. -/
def sealedTexts (entries : List PostedEntry) : List (List Byte) :=
  (HashChain.stamped sealEntry genesisTip entries).map fun pair => sealedText pair.1 pair.2

/-- Different texts, one of each chain, with one digest. -/
def DigestCollision (entries entries' : List PostedEntry) : Prop :=
  ∃ a ∈ sealedTexts entries, ∃ b ∈ sealedTexts entries',
    a ≠ b ∧ ChainDigest.sha256 a = ChainDigest.sha256 b

/-- A text of one of the chains whose digest is all zeros. -/
def ZeroDigest (entries entries' : List PostedEntry) : Prop :=
  ∃ a ∈ sealedTexts entries ++ sealedTexts entries', ChainDigest.sha256 a = genesisTip

theorem mem_sealedTexts {pair : List Byte × PostedEntry}
    (h : pair ∈ HashChain.stamped sealEntry genesisTip entries) :
    sealedText pair.1 pair.2 ∈ sealedTexts entries := List.mem_map_of_mem h

/-- An audit trail that ends in the tip of the journal is its own: the same headers, the same
entries in the same order. Otherwise a text that was sealed for the trail and a different one that
was sealed for the journal have one digest, or one of these texts has the digest of zeros. -/
theorem audit_trail_is_binding (hdigest : ∀ text, (ChainDigest.sha256 text).length = 32)
    (fiscalLockEpochMs : ℤ) {actions : List ZoneAction} (htyped : ∀ action ∈ actions, action.Typed)
    {headers : List LedgerAuditHeader} {entries : List PostedEntry}
    (hentries : ∀ entry ∈ entries, EntryFits entry)
    (htrail : Chained genesisTip headers entries
      ((JournaledZone.new fiscalLockEpochMs).run actions).merkleChainTip) :
    headers = ((JournaledZone.new fiscalLockEpochMs).run actions).auditHeaders ∧
        entries = postedBy fiscalLockEpochMs actions ∨
      DigestCollision entries (postedBy fiscalLockEpochMs actions) ∨
        ZeroDigest entries (postedBy fiscalLockEpochMs actions) := by
  have hrun := journals_run fiscalLockEpochMs actions
  have hfits {es : List PostedEntry} (hes : ∀ entry ∈ es, EntryFits entry) :
      ∀ pair ∈ HashChain.stamped sealEntry genesisTip es,
        pair.1.length = 32 ∧ EntryFits pair.2 :=
    HashChain.of_mem_stamped (P := fun tip : List Byte => tip.length = 32)
      (List.length_replicate ..) (fun tip entry _ _ => hdigest _) hes
  obtain ⟨hheaders, htip⟩ := chained_iff.mp htrail
  rw [hrun.tip] at htip
  rcases HashChain.eq_of_tipAfter_eq htip with heq | ⟨a, ha, b, hb, hne, hseal⟩ | ⟨a, ha, hback⟩
  · left
    rw [hheaders, hrun.headers, heq]
    exact ⟨rfl, rfl⟩
  · right
    left
    refine ⟨_, mem_sealedTexts ha, _, mem_sealedTexts hb, ?_, hseal⟩
    intro htexts
    obtain ⟨hatip, hafits⟩ := hfits hentries a ha
    obtain ⟨hbtip, hbfits⟩ := hfits (postedBy_fits htyped) b hb
    obtain ⟨htips, hentry⟩ := sealedText_inj (hatip.trans hbtip.symm) hafits hbfits htexts
    exact hne (Prod.ext htips hentry)
  · right
    right
    rw [ZeroDigest, sealedTexts, sealedTexts, ← List.map_append]
    exact ⟨_, List.mem_map_of_mem ha, hback⟩

end Chain

/-- SHA-256 of the first entry of a journal, posted at 3500 with a sum of 3000.0000. -/
@[reducible] def firstEntryDigest : ChainDigest where
  sha256 text :=
    if text = genesisTip ++ writeI64 3500 ++ writeI128 30000000 then
      [244, 12, 239, 228, 136, 230, 73, 174, 213, 168, 120, 254, 4, 144, 244, 79,
        173, 173, 132, 121, 104, 43, 238, 35, 233, 3, 152, 195, 16, 219, 27, 211]
    else genesisTip

def firstPosting : ZoneAction := .call (.recordJournalEntry 3500 [30000000] [30000000])

theorem audit_trail_is_binding_one_entry :
    @postedBy 1000 [firstPosting] = [(3500, 30000000)] ∨
      @DigestCollision firstEntryDigest [(3500, 30000000)] (postedBy 1000 [firstPosting]) ∨
        @ZeroDigest firstEntryDigest [(3500, 30000000)] (postedBy 1000 [firstPosting]) := by
  have hdigest : ∀ text, (@ChainDigest.sha256 firstEntryDigest text).length = 32 := by
    intro text
    change (if _ then _ else _ : List Byte).length = 32
    split_ifs <;> rfl
  have htyped : ∀ action ∈ [firstPosting], action.Typed := by
    simp [firstPosting, ZoneAction.Typed, InI64, InI128]
  have hentries : ∀ entry ∈ [((3500, 30000000) : PostedEntry)], EntryFits entry := by
    simp [EntryFits, InI64, InI128]
  have htrail := @audit_headers_chain firstEntryDigest 1000 [firstPosting]
  exact (@audit_trail_is_binding firstEntryDigest hdigest 1000 [firstPosting] htyped _
    [(3500, 30000000)] hentries htrail).imp_left fun h => h.2.symm

end MetriEngine.Storage.FinancialLedger
