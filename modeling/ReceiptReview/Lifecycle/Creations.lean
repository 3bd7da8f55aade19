import Mathlib.Data.List.Pairwise
import ReceiptReview.Lifecycle.Runs

/-!
# Intakes of a run

The receipts, their images and the idempotency keys of a database are those of
the intakes that its run has committed (`Catalogued`).  So what a query by key
or by image finds depends on the intakes alone: an answer never changes, and a
missing row appears only with a new intake.
-/

namespace ReceiptReview

open Java Store ReceiptCase

variable {P : Platform} {employees : Table Employee} {trace earlier : List Commit} {commit : Commit}
variable {db db' : Database} {changes : Database.Changes} {new : Database.Creation}
variable {intakes : List Database.Creation}

/-- The intakes of a trace, the newest first. -/
def creations (trace : List Commit) : List Database.Creation :=
  trace.filterMap fun commit => commit.changes.created

@[simp] theorem creations_nil : creations [] = [] := rfl

theorem creations_suffix (h : earlier <:+ trace) : creations earlier <:+ creations trace := by
  obtain ⟨later, rfl⟩ := h
  exact ⟨creations later, List.filterMap_append.symm⟩

theorem creations_cons_of_none (h : commit.changes.created = none) :
    creations (commit :: trace) = creations trace := by
  simp [creations, h]

theorem creations_cons_of_some (h : commit.changes.created = some new) :
    creations (commit :: trace) = new :: creations trace := by
  simp [creations, h]

/-- Only `createQueued` adds an intake. -/
theorem Extends.created_eq_none
    (hextends : Extends P employees trace commit.operation commit.reply (commit :: trace))
    (hoperation : ∀ receipt imageStorageKey idempotencyKey auditEvents receiptId jobId createdAt
      recordedAt, commit.operation ≠ .createQueued receipt imageStorageKey idempotencyKey
        auditEvents receiptId jobId createdAt recordedAt) :
    commit.changes.created = none := by
  obtain ⟨-, -, snapshot, -, hbody⟩ := hextends.head
  by_contra hcreated
  obtain ⟨new, hnew⟩ := Option.ne_none_iff_exists'.mp hcreated
  obtain ⟨_, _, _, _, _, _, _, _, heq, -⟩ := created_of_body hbody hnew
  exact hoperation _ _ _ _ _ _ _ _ heq

/-- Two intakes are of the same image of the same company. -/
def Database.Creation.sameImage (P : Platform) (a b : Database.Creation) : Prop :=
  P.textEq a.receipt.companyId b.receipt.companyId = true ∧
    P.textEq a.receipt.imageSha256 b.receipt.imageSha256 = true

/-- Two intakes have recorded the same key of the same company. -/
def Database.Creation.sameKey (P : Platform) (a b : Database.Creation) : Prop :=
  ∃ record ∈ a.record, ∃ record' ∈ b.record,
    P.textEq record.companyId record'.companyId = true ∧
      P.textEq record.idempotencyKey record'.idempotencyKey = true

/-- What the transaction `createQueued` makes of its arguments. -/
structure Database.Creation.WellFormed (P : Platform) (new : Database.Creation) : Prop where
  digest : ∃ bytes, new.receipt.imageSha256 = P.sha256 bytes
  record : ∀ record, new.record = some record →
    record.receiptId = new.receipt.id ∧ record.companyId = new.receipt.companyId ∧
      record.idempotencyKey.isBlank = false

/-- The database holds the receipts and the keys of these intakes, and no others. -/
structure Database.Catalogued (P : Platform) (db : Database) (intakes : List Database.Creation) :
    Prop where
  records : db.idempotencyRecords = intakes.reverse.filterMap Database.Creation.record
  stored : ∀ new ∈ intakes, ∃ receipt, db.receiptRow new.receipt.id = some receipt ∧
    SameReceipt new.receipt receipt
  created : ∀ id receipt, db.receiptRow id = some receipt →
    ∃ new ∈ intakes, SameReceipt new.receipt receipt
  nodup : (intakes.map fun new => new.receipt.id).Nodup
  images : intakes.Pairwise fun later earlier => ¬ earlier.sameImage P later
  keys : intakes.Pairwise fun later earlier => ¬ earlier.sameKey P later
  wellFormed : ∀ new ∈ intakes, new.WellFormed P

theorem SameReceipt.symm {a b : Receipt} (h : SameReceipt a b) : SameReceipt b a :=
  ⟨h.id.symm, h.ownerEmployeeId.symm, h.companyId.symm, h.imageSha256.symm⟩

/-! ## Queries by image and by key -/

theorem findByCompanyIdAndImageSha256_eq_some {companyId imageSha256 : JString} {receipt : Receipt}
    (h : db.findByCompanyIdAndImageSha256 P companyId imageSha256 = some receipt) :
    db.findReceipt receipt.id = some receipt ∧ P.textEq receipt.companyId companyId = true ∧
      P.textEq receipt.imageSha256 imageSha256 = true := by
  obtain ⟨row, hrow, rfl⟩ := Option.map_eq_some_iff.mp h
  have hmem : db.receiptRow row.id = some row := Table.find?_of_mem (List.mem_of_find?_eq_some hrow)
  have hmatches := List.find?_some hrow
  simp only [Bool.and_eq_true] at hmatches
  exact ⟨Database.findReceipt_of_receiptRow hmem, hmatches.1, hmatches.2⟩

theorem findByCompanyIdAndImageSha256_eq_none {companyId imageSha256 : JString} :
    db.findByCompanyIdAndImageSha256 P companyId imageSha256 = none ↔
      ∀ id receipt, db.receiptRow id = some receipt →
        ¬ (P.textEq receipt.companyId companyId = true ∧
          P.textEq receipt.imageSha256 imageSha256 = true) := by
  unfold Database.findByCompanyIdAndImageSha256
  rw [Option.map_eq_none_iff, List.find?_eq_none]
  constructor
  · intro hnone id receipt hreceipt hmatches
    exact hnone receipt (Table.mem_of_find? hreceipt) (by simpa using hmatches)
  · intro hnone receipt hmem hmatches
    exact hnone _ receipt (Table.find?_of_mem hmem) (by simpa using hmatches)

theorem findByCompanyIdAndIdempotencyKey_eq_some {companyId idempotencyKey : JString}
    {record : IdempotencyRecord}
    (h : db.findByCompanyIdAndIdempotencyKey P companyId idempotencyKey = some record) :
    record ∈ db.idempotencyRecords ∧ P.textEq record.companyId companyId = true ∧
      P.textEq record.idempotencyKey idempotencyKey = true := by
  have hmatches := List.find?_some h
  simp only [Bool.and_eq_true] at hmatches
  exact ⟨List.mem_of_find?_eq_some h, hmatches.1, hmatches.2⟩

theorem textEq_symm {a b : JString} (h : P.textEq a b = true) : P.textEq b a = true := by
  rw [Platform.textEq, beq_iff_eq] at h ⊢
  exact h.symm

theorem textEq_trans {a b c : JString} (hab : P.textEq a b = true) (hbc : P.textEq b c = true) :
    P.textEq a c = true := by
  rw [Platform.textEq, beq_iff_eq] at hab hbc ⊢
  exact hab.trans hbc

/-- Digests that compare equal are equal. -/
theorem eq_of_textEq_sha256 {a b : List UInt8} (h : P.textEq (P.sha256 a) (P.sha256 b) = true) :
    P.sha256 a = P.sha256 b :=
  P.collate_sha256 a b (by simpa [Platform.textEq] using h)

/-! ## Commits -/

/-- A receipt that is found has an intake. -/
theorem Database.Catalogued.found (h : db.Catalogued P intakes) {id : Long} {receipt : Receipt}
    (hfound : db.findReceipt id = some receipt) :
    ∃ new ∈ intakes, SameReceipt new.receipt receipt := by
  obtain ⟨row, hrow, rfl⟩ := Database.findReceipt_eq_some.mp hfound
  obtain ⟨new, hnew, hsame⟩ := h.created id row hrow
  exact ⟨new, hnew, hsame.id, hsame.ownerEmployeeId, hsame.companyId, hsame.imageSha256⟩

/-- A commit without an intake keeps the catalogue. -/
theorem Database.Catalogued.written (h : db.Catalogued P intakes)
    (hcreated : changes.created = none) (hcommit : db.commit P changes = .ok db')
    (hsame : ∀ id receipt, db.receiptRow id = some receipt →
      SameReceipt receipt (Table.updated changes.receipts receipt)) :
    db'.Catalogued P intakes where
  records := by
    obtain ⟨_, _, -, -, rfl⟩ := Database.commit_written hcreated hcommit
    exact h.records
  stored new hmem := by
    obtain ⟨receipt, hreceipt, hnew⟩ := h.stored new hmem
    refine ⟨_, ?_, hnew.trans (hsame _ _ hreceipt)⟩
    rw [receiptRow_written hcreated hcommit, hreceipt]
    rfl
  created id receipt' hreceipt' := by
    rw [receiptRow_written hcreated hcommit] at hreceipt'
    obtain ⟨receipt, hreceipt, rfl⟩ := Option.map_eq_some_iff.mp hreceipt'
    obtain ⟨new, hmem, hnew⟩ := h.created id receipt hreceipt
    exact ⟨new, hmem, hnew.trans (hsame _ _ hreceipt)⟩
  nodup := h.nodup
  images := h.images
  keys := h.keys
  wellFormed := h.wellFormed

/-- The unique constraint on the image. -/
theorem Database.Catalogued.not_sameImage (h : db.Catalogued P intakes)
    (hadmits : db.admits P new = true) : ∀ old ∈ intakes, ¬ old.sameImage P new := by
  intro old hmem hsameImage
  obtain ⟨receipt, hreceipt, hsame⟩ := h.stored old hmem
  have hnone : db.findByCompanyIdAndImageSha256 P new.receipt.companyId new.receipt.imageSha256 =
      none := by
    simp only [Database.admits, Bool.and_eq_true, Option.isNone_iff_eq_none] at hadmits
    exact hadmits.1.1.1
  refine findByCompanyIdAndImageSha256_eq_none.mp hnone _ receipt hreceipt ?_
  rw [hsame.companyId, hsame.imageSha256]
  exact hsameImage

/-- The unique constraint on the key. -/
theorem Database.Catalogued.not_sameKey (h : db.Catalogued P intakes)
    (hadmits : db.admits P new = true) : ∀ old ∈ intakes, ¬ old.sameKey P new := by
  intro old hmem hsame
  obtain ⟨record', hrecord', record, hrecord, hmatches⟩ := hsame
  have hold : record' ∈ db.idempotencyRecords := by
    rw [h.records, List.mem_filterMap]
    exact ⟨old, by simpa using hmem, hrecord'⟩
  have hnone : db.findByCompanyIdAndIdempotencyKey P record.companyId record.idempotencyKey =
      none := by
    simp only [Database.admits, Bool.and_eq_true] at hadmits
    have hkey := hadmits.1.2
    rw [show new.record = some record from hrecord] at hkey
    simpa using hkey
  have hfalse := List.find?_eq_none.mp hnone record' hold
  simp [hmatches] at hfalse

/-- An intake adds itself to the catalogue. -/
theorem Database.Catalogued.intake (h : db.Catalogued P intakes) {events : List AuditEvent}
    (hcommit : db.commit P { created := some new, events } = .ok db')
    (hwellFormed : new.WellFormed P) : db'.Catalogued P (new :: intakes) := by
  obtain ⟨hadmits, receipts, jobs, hinsert, -, rfl⟩ := Database.commit_created hcommit
  have hfound : ∀ id, Table.find? receipts id =
      if id = new.receipt.id then some new.receipt else db.receiptRow id :=
    fun id => Table.find?_insert hinsert id
  have hfresh : db.receiptRow new.receipt.id = none := (Table.find?_insert_self hinsert).1
  have hother : ∀ {id receipt}, db.receiptRow id = some receipt → id ≠ new.receipt.id := by
    rintro id receipt hreceipt rfl
    rw [hfresh] at hreceipt
    exact absurd hreceipt (by simp)
  refine ⟨?_, ?_, ?_, ?_, ?_, ?_, ?_⟩
  · simp only [h.records, List.reverse_cons, List.filterMap_append]
    cases hrecord : new.record <;> simp [hrecord]
  · intro new' hmem
    rcases List.mem_cons.mp hmem with rfl | hmem
    · exact ⟨new'.receipt, by rw [Database.receiptRow, hfound, if_pos rfl], rfl, rfl, rfl, rfl⟩
    · obtain ⟨receipt, hreceipt, hsame⟩ := h.stored new' hmem
      refine ⟨receipt, ?_, hsame⟩
      rw [Database.receiptRow, hfound, if_neg (hother hreceipt), hreceipt]
  · intro id receipt hreceipt
    rw [Database.receiptRow, hfound] at hreceipt
    split at hreceipt
    · -- the receipt of the intake itself
      cases hreceipt
      exact ⟨new, by simp, rfl, rfl, rfl, rfl⟩
    · obtain ⟨new', hmem, hsame⟩ := h.created id receipt hreceipt
      exact ⟨new', by simp [hmem], hsame⟩
  · rw [List.map_cons, List.nodup_cons]
    refine ⟨fun hmem => ?_, h.nodup⟩
    obtain ⟨new', hmem', hid⟩ := List.mem_map.mp hmem
    obtain ⟨receipt, hreceipt, -⟩ := h.stored new' hmem'
    exact hother hreceipt hid
  · exact .cons (h.not_sameImage hadmits) h.images
  · exact .cons (h.not_sameKey hadmits) h.keys
  · intro new' hmem
    rcases List.mem_cons.mp hmem with rfl | hmem
    · exact hwellFormed
    · exact h.wellFormed new' hmem

/-! ## Runs -/

/-- The intake of a receipt under a key. -/
theorem wellFormed_createQueued {receipt : Receipt} {imageStorageKey : JString}
    {idempotencyKey : Option JString} {auditEvents : List AuditEvent} {receiptId jobId : Long}
    {createdAt recordedAt : Instant} {pair : Receipt × ReceiptExtractionJob}
    (hpermitted : (Operation.createQueued receipt imageStorageKey idempotencyKey auditEvents
      receiptId jobId createdAt recordedAt).Permitted P employees)
    (hcreate : ReceiptPersistenceService.createQueued receipt imageStorageKey idempotencyKey
      auditEvents receiptId jobId createdAt recordedAt = .ok (pair, changes)) :
    ∃ new, changes = { created := some new, events := auditEvents.map (·.attachTo receiptId) } ∧
      new.WellFormed P ∧ pair.1 = new.receipt ∧ new.receipt = { receipt with id := receiptId } ∧
      new.record = (idempotencyKey.filter fun key => !key.isBlank).map fun key =>
        { companyId := receipt.companyId, idempotencyKey := key, receiptId,
          createdAt := recordedAt } := by
  cases hcreate
  obtain ⟨call, contentType, now, rfl, -, -⟩ := hpermitted
  refine ⟨_, rfl, ⟨⟨call.bytes, rfl⟩, ?_⟩, rfl, rfl, ?_⟩
  · intro record hrecord
    simp only at hrecord
    split at hrecord
    · exact absurd hrecord (by simp)
    · split at hrecord
      · exact absurd hrecord (by simp)
      · rename_i hblank
        cases hrecord
        exact ⟨rfl, rfl, by simpa using hblank⟩
  · cases idempotencyKey with
    | none => rfl
    | some key => by_cases hblank : key.isBlank = true <;> simp [hblank]

theorem Run.catalogued (h : Run P employees trace) :
    (current employees trace).Catalogued P (creations trace) := by
  induction trace with
  | nil =>
      exact ⟨rfl, by simp, fun id receipt hreceipt => absurd hreceipt (by
        simp [current, Database.initial, Database.receiptRow]), by simp, .nil, .nil, by simp⟩
  | cons commit trace ih =>
      obtain ⟨hrun, hbefore, hpermitted, hcommit, snapshot, -, hbody⟩ := h.head
      rw [hbefore] at hcommit
      cases hcreated : commit.changes.created with
      | none =>
          have hsettled := h.settled hcreated
          rw [creations_cons_of_none hcreated]
          refine (ih hrun).written hcreated hcommit fun id receipt hreceipt => ?_
          obtain ⟨x, hx, rfl⟩ := hrun.current_refines.paired.of_receipt hreceipt
          exact (hsettled.settles hx).sameReceipt
      | some new =>
          rw [creations_cons_of_some hcreated]
          obtain ⟨_, _, _, _, _, _, _, _, hoperation, hcreate⟩ := created_of_body hbody hcreated
          rw [hoperation] at hpermitted
          obtain ⟨new', hchanges, hwellFormed, -⟩ := wellFormed_createQueued hpermitted hcreate
          rw [hchanges] at hcreated hcommit
          cases hcreated
          exact (ih hrun).intake hcommit hwellFormed

/-! ## What the catalogue says about a run -/

/-- A key that is bound at one moment is bound to the same receipt at every later one. -/
theorem Run.bound_later (h : Run P employees trace) (hearlier : earlier <:+ trace)
    {companyId idempotencyKey : JString} {record : IdempotencyRecord}
    (hrecord : (current employees earlier).findByCompanyIdAndIdempotencyKey P companyId
      idempotencyKey = some record) :
    (current employees trace).findByCompanyIdAndIdempotencyKey P companyId idempotencyKey =
      some record := by
  obtain ⟨later, hlater⟩ := creations_suffix hearlier
  unfold Database.findByCompanyIdAndIdempotencyKey at hrecord ⊢
  rw [(h.suffix hearlier).catalogued.records] at hrecord
  rw [h.catalogued.records, ← hlater, List.reverse_append, List.filterMap_append,
    List.find?_append, hrecord]
  rfl

/-- A record comes with the intake of its receipt. -/
theorem Run.intake_of_record (h : Run P employees trace) {companyId idempotencyKey : JString}
    {record : IdempotencyRecord}
    (hrecord : (current employees trace).findByCompanyIdAndIdempotencyKey P companyId
      idempotencyKey = some record) :
    ∃ new ∈ creations trace, new.record = some record ∧ record.receiptId = new.receipt.id := by
  obtain ⟨hmem, -, -⟩ := findByCompanyIdAndIdempotencyKey_eq_some hrecord
  rw [h.catalogued.records, List.mem_filterMap] at hmem
  obtain ⟨new, hnew, hrecord'⟩ := hmem
  rw [List.mem_reverse] at hnew
  exact ⟨new, hnew, hrecord', ((h.catalogued.wellFormed new hnew).record record hrecord').1⟩

/-- The receipt to which a key is bound is stored. -/
theorem Run.receipt_of_record (h : Run P employees trace) {companyId idempotencyKey : JString}
    {record : IdempotencyRecord}
    (hrecord : (current employees trace).findByCompanyIdAndIdempotencyKey P companyId
      idempotencyKey = some record) :
    ∃ receipt, (current employees trace).receiptRow record.receiptId = some receipt := by
  obtain ⟨new, hnew, -, hid⟩ := h.intake_of_record hrecord
  obtain ⟨receipt, hreceipt, -⟩ := h.catalogued.stored new hnew
  exact ⟨receipt, hid ▸ hreceipt⟩

/-- A key that becomes bound is bound to a receipt that was not stored before. -/
theorem Run.fresh_of_bound (h : Run P employees trace) (hearlier : earlier <:+ trace)
    {companyId idempotencyKey : JString} {record : IdempotencyRecord}
    (hunbound : (current employees earlier).findByCompanyIdAndIdempotencyKey P companyId
      idempotencyKey = none)
    (hrecord : (current employees trace).findByCompanyIdAndIdempotencyKey P companyId
      idempotencyKey = some record) :
    (current employees earlier).receiptRow record.receiptId = none := by
  have hthen := (h.suffix hearlier).catalogued
  obtain ⟨new, hnew, hnewRecord, hid⟩ := h.intake_of_record hrecord
  obtain ⟨-, hmatches⟩ := findByCompanyIdAndIdempotencyKey_eq_some hrecord
  obtain ⟨later, hlater⟩ := creations_suffix hearlier
  have hnodup := h.catalogued.nodup
  rw [← hlater] at hnew hnodup
  rcases List.mem_append.mp hnew with hnew | hnew
  · -- the receipt came with a later intake, and keys of receipts are drawn once
    by_contra hstored
    obtain ⟨receipt, hreceipt⟩ := Option.ne_none_iff_exists'.mp hstored
    obtain ⟨old, hold, hsame⟩ := hthen.created _ receipt hreceipt
    have hsameId : old.receipt.id = new.receipt.id := by
      rw [← hid, ← Database.id_of_receiptRow hreceipt, hsame.id]
    rw [List.map_append, List.nodup_append] at hnodup
    exact hnodup.2.2 _ (List.mem_map_of_mem hnew) _ (List.mem_map_of_mem hold) hsameId.symm
  · -- the key would have been bound then
    have hmem : record ∈ (current employees earlier).idempotencyRecords := by
      rw [hthen.records, List.mem_filterMap]
      exact ⟨new, by simpa using hnew, hnewRecord⟩
    have hnone := List.find?_eq_none.mp hunbound record hmem
    simp [hmatches] at hnone

/-- Images are stored once. -/
theorem Run.eq_of_sameImage (h : Run P employees trace) {a b : Long} {receipt receipt' : Receipt}
    (ha : (current employees trace).receiptRow a = some receipt)
    (hb : (current employees trace).receiptRow b = some receipt')
    (hcompany : P.textEq receipt.companyId receipt'.companyId = true)
    (himage : P.textEq receipt.imageSha256 receipt'.imageSha256 = true) : a = b := by
  obtain ⟨new, hnew, hsame⟩ := h.catalogued.created a receipt ha
  obtain ⟨new', hnew', hsame'⟩ := h.catalogued.created b receipt' hb
  have : Std.Symm fun later earlier : Database.Creation => ¬ earlier.sameImage P later :=
    ⟨fun x y hxy hyx => hxy ⟨textEq_symm hyx.1, textEq_symm hyx.2⟩⟩
  by_cases heq : new = new'
  · rw [← Database.id_of_receiptRow ha, ← Database.id_of_receiptRow hb, hsame.id, hsame'.id, heq]
  · refine absurd ?_ (h.catalogued.images.forall hnew' hnew (Ne.symm heq))
    rw [Database.Creation.sameImage, ← hsame.companyId, ← hsame.imageSha256, ← hsame'.companyId,
      ← hsame'.imageSha256]
    exact ⟨hcompany, himage⟩

/-- A key is bound to the receipt whose intake has recorded a key that compares equal. -/
theorem Run.bound_of_intake (h : Run P employees trace) {companyId idempotencyKey : JString}
    {record : IdempotencyRecord} (hnew : new ∈ creations trace) (hrecord : new.record = some record)
    (hcompany : P.textEq record.companyId companyId = true)
    (hkey : P.textEq record.idempotencyKey idempotencyKey = true) :
    (current employees trace).findByCompanyIdAndIdempotencyKey P companyId idempotencyKey =
      some record := by
  have hmem : record ∈ (current employees trace).idempotencyRecords := by
    rw [h.catalogued.records, List.mem_filterMap]
    exact ⟨new, by simpa using hnew, hrecord⟩
  cases hfound : (current employees trace).findByCompanyIdAndIdempotencyKey P companyId
      idempotencyKey with
  | none =>
      have hfalse := List.find?_eq_none.mp hfound record hmem
      simp [hcompany, hkey] at hfalse
  | some record' =>
      -- two intakes under one key are one intake
      obtain ⟨new', hnew', hrecord', -⟩ := h.intake_of_record hfound
      obtain ⟨-, hcompany', hkey'⟩ := findByCompanyIdAndIdempotencyKey_eq_some hfound
      have : Std.Symm fun later earlier : Database.Creation => ¬ earlier.sameKey P later := by
        refine ⟨fun x y hxy hyx => hxy ?_⟩
        obtain ⟨a, ha, b, hb, hab, hab'⟩ := hyx
        exact ⟨b, hb, a, ha, textEq_symm hab, textEq_symm hab'⟩
      by_cases heq : new' = new
      · rw [heq, hrecord] at hrecord'
        exact hrecord'.symm
      · refine absurd ?_ (h.catalogued.keys.forall hnew hnew' (Ne.symm heq))
        exact ⟨record', hrecord', record, hrecord, textEq_trans hcompany' (textEq_symm hcompany),
          textEq_trans hkey' (textEq_symm hkey)⟩

/-- The stored digest of an image is the digest that it compares equal to. -/
theorem Run.imageSha256_of_textEq (h : Run P employees trace) {id : Long} {receipt : Receipt}
    (hreceipt : (current employees trace).receiptRow id = some receipt) {bytes : List UInt8}
    (himage : P.textEq receipt.imageSha256 (P.sha256 bytes) = true) :
    receipt.imageSha256 = P.sha256 bytes := by
  obtain ⟨new, hnew, hsame⟩ := h.catalogued.created id receipt hreceipt
  obtain ⟨stored, hdigest⟩ := (h.catalogued.wellFormed new hnew).digest
  rw [hsame.imageSha256, hdigest] at himage ⊢
  exact eq_of_textEq_sha256 himage

end ReceiptReview
