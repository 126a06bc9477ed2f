import Histae.Privacy.Export

/-!
# The exported document

The sections of an export are determined by the snapshot and the account. The
steps of the export write them in turn, whatever the size of the pages, and a
file that is handed out is the text of one object with these members.
-/

namespace Histae.Privacy

open AsyncFile Paging Relational Text

section Sections

/-- A member of the exported object. -/
inductive Section where
  | property (name : String) (value : Json)
  | array (name : String) (rows : List Json)
  | discovery (rows : List Json)

namespace Section

def name : Section → String
  | .property name _ => name
  | .array name _ => name
  | .discovery _ => "discovery_actions"

def json : Section → Json
  | .property _ value => value
  | .array _ rows => .array rows
  | .discovery rows => .object [("outgoing", .array rows)]

def calls : Section → List WriterCall
  | .property name value => [.property name (some value)]
  | .array name rows => arrayCalls name rows
  | .discovery rows =>
      .startObject (some "discovery_actions") :: arrayCalls "outgoing" rows ++ [.endObject]

end Section

theorem document_append (first rest : List WriterCall) (d : Document) :
    document (first ++ rest) d = (document first d).bind (document rest) := by
  induction first generalizing d with
  | nil => rfl
  | cons call first ih =>
      rw [List.cons_append, document, document]
      cases call.extend d with
      | none => rfl
      | some d' => exact ih d'

theorem document_items (rows items : List Json) (hole : Hole) :
    document (rows.map fun row ↦ .item (some row)) (.within (.array items) hole) =
      some (.within (.array (items ++ rows)) hole) := by
  induction rows generalizing items with
  | nil => rw [List.append_nil]; rfl
  | cons row rows ih =>
      have hsplit : items ++ row :: rows = items ++ [row] ++ rows := by simp
      rw [hsplit]
      exact ih (items ++ [row])

theorem document_arrayCalls (name : String) (rows : List Json) (members : List (String × Json))
    (hole : Hole) :
    document (arrayCalls name rows) (.within (.object members) hole) =
      some (.within (.object (members ++ [(name, .array rows)])) hole) := by
  have hitems := document_items rows [] (.member members name hole)
  rw [List.nil_append] at hitems
  have hstart : WriterCall.extend (.startArray name) (.within (.object members) hole) =
      some (.within (.array []) (.member members name hole)) := rfl
  rw [arrayCalls, List.cons_append, document, hstart, Option.bind_some, document_append, hitems]
  rfl

theorem Section.document_calls (x : Section) (members : List (String × Json)) (hole : Hole) :
    document x.calls (.within (.object members) hole) =
      some (.within (.object (members ++ [(x.name, x.json)])) hole) := by
  cases x with
  | property name value => rfl
  | array name rows => exact document_arrayCalls name rows members hole
  | discovery rows =>
      have hrows := document_arrayCalls "outgoing" rows [] (.member members "discovery_actions" hole)
      have hstart : WriterCall.extend (.startObject (some "discovery_actions"))
          (.within (.object members) hole) =
          some (.within (.object []) (.member members "discovery_actions" hole)) := rfl
      rw [Section.calls, List.cons_append, document, hstart, Option.bind_some, document_append, hrows]
      rfl

theorem document_sections (sections : List Section) (members : List (String × Json)) (hole : Hole) :
    document (sections.flatMap Section.calls) (.within (.object members) hole) =
      some (.within (.object (members ++ sections.map fun x ↦ (x.name, x.json))) hole) := by
  induction sections generalizing members with
  | nil => rw [List.map_nil, List.append_nil]; rfl
  | cons x sections ih =>
      rw [List.flatMap_cons, document_append, x.document_calls, Option.bind_some, ih, List.map_cons,
        List.append_assoc, List.singleton_append]

/-- The calls that write an object of these sections. -/
def documentCalls (sections : List Section) : List WriterCall :=
  .startObject none :: sections.flatMap Section.calls ++ [.endObject]

theorem document_documentCalls (sections : List Section) :
    document (documentCalls sections) .empty =
      some (.complete (.object (sections.map fun x ↦ (x.name, x.json)))) := by
  have hsections := document_sections sections [] .top
  rw [List.nil_append] at hsections
  have hstart : WriterCall.extend (.startObject none) .empty = some (.within (.object []) .top) := rfl
  rw [documentCalls, List.cons_append, document, hstart, Option.bind_some, document_append, hsections]
  rfl

end Sections

section Snapshot

variable {φ : Type} [AsyncFile φ] {τ : Type} [LinearOrder τ] (session : SessionText) (db : Snapshot τ) (userId : Uuid)

def single (table : Table SingleRow.userId) : Json :=
  ((table.find? userId).map SingleRow.value).getD .null

def notificationPreferences : List Json :=
  match single userId db.userNotificationPreference with
  | .null => []
  | choices => [choices]

/-- What the transaction writes, in order. -/
def snapshotSections : List Section :=
  [.property "continuation_wallet" (single userId db.continuationWallet),
    .array "continuation_usage" ((continuationUsage session db userId).ordered.map UsageRow.value),
    .array "continuation_reservations"
      ((continuationReservations session db userId).ordered.map ReservationRow.value),
    .array "advertising_rewards" ((advertisingRewards session db userId).ordered.map OwnedRow.value),
    .array "notification_preferences" (notificationPreferences db userId),
    .array "conversation_notification_preferences"
      ((conversationNotificationPreferences session db userId).ordered.map fun x ↦ x.1.value),
    .array "traits" ((traits db userId).ordered.map TraitRow.value),
    .array "profile_answers" ((profileAnswers db userId).map AnswerRow.value),
    .array "legal_choices" ((legalChoices db userId).ordered.map ConsentRow.value),
    .array "matches" ((matches_ session db userId).ordered.map MatchRow.value),
    .array "authored_messages" ((authoredMessages session db userId).ordered.map OwnedRow.value),
    .array "submitted_reports" ((submittedReports session db userId).ordered.map OwnedRow.value),
    .array "blocked_users" ((blockedUsers session db userId).ordered.map BlockRow.value),
    .array "billing_invoices" ((billingInvoices session db userId).ordered.map InvoiceRow.value),
    .array "devices" ((devices session db userId).ordered.map OwnedRow.value),
    .array "store_subscriptions" ((storeSubscriptions session db userId).ordered.map OwnedRow.value),
    .array "data_requests" ((dataRequests session db userId).ordered.map OwnedRow.value),
    .array "mobile_sessions" ((mobileSessions session db userId).ordered.map OwnedRow.value),
    .discovery ((outgoing session db userId).ordered.map SwipeRow.value)]

def profileOf : Json × Option String :=
  ((db.userProfile.find? userId).map fun r ↦ (r.value, r.photoKey)).getD (.null, none)

def snapshotOf (discoveryRows : ℕ) : ExportSnapshot where
  snapshotAt := db.transactionTimestamp
  account := single userId db.userAccount
  profile := (profileOf db userId).1
  photoKey := (profileOf db userId).2
  preferences := single userId db.userPreferences
  subscription := single userId db.effectiveUserSubscription
  discoveryRows := discoveryRows

def closingSections (env : Surroundings) (snapshot : ExportSnapshot) (photo : Option String) :
    List Section :=
  [.property "account" snapshot.account,
    .property "profile" (profileWithPhoto snapshot.profile photo),
    .property "preferences" snapshot.preferences,
    .property "subscription" snapshot.subscription,
    .property "exported_at" (.string (env.wireTimestamp env.completedAt)),
    .property "consistency" (consistency env snapshot)]

variable {session db userId} {pageSize : ℕ}

theorem Emits.congr {ε α : Type} {m : RunM φ ε α} {calls calls' : List WriterCall} {a : α}
    (h : Emits m calls a) (heq : calls = calls') : Emits m calls' a := heq ▸ h

theorem emits_writeQuery {ρ κ γ : Type} [LinearOrder κ] (hsize : 0 < pageSize) (name : String)
    (q : PagedQuery ρ κ γ) (value : ρ → Json) :
    Emits (writeQuery pageSize name q value : ExportM φ ℕ) (Section.array name (q.ordered.map value)).calls
      (min q.rows.length u64Limit) := emits_writeArray hsize (Nat.lt_succ_self _) name

theorem emits_optionalJson (table : Table SingleRow.userId) :
    Emits (optionalJson userId table : ExportM φ Json) [] (single userId table) := emits_query _

theorem emits_writeContinuationData (hsize : 0 < pageSize) :
    Emits (writeContinuationData session db userId pageSize : ExportM φ Unit)
      (((snapshotSections session db userId).take 4).flatMap Section.calls) () := by
  refine ((emits_optionalJson _).bind ((emits_call _).bind ((emits_writeQuery hsize _ _ _).bind
    ((emits_writeQuery hsize _ _ _).bind ((emits_writeQuery hsize _ _ _).bind
      (emits_pure ())))))).congr ?_
  simp only [snapshotSections, List.take_succ_cons, List.take_zero, List.flatMap_cons,
    List.flatMap_nil, List.nil_append]
  rfl

omit [LinearOrder τ] in
theorem emits_writeNotificationPreferences :
    Emits (writeNotificationPreferences db userId : ExportM φ Unit)
      (Section.array "notification_preferences" (notificationPreferences db userId)).calls () := by
  have hrows : Emits (writeChoices (single userId db.userNotificationPreference) : ExportM φ Unit)
      ((notificationPreferences db userId).map fun row ↦ .item (some row)) () := by
    rw [notificationPreferences]
    cases single userId db.userNotificationPreference with
    | null => exact emits_pure ()
    | bool b => exact emits_call _
    | number n => exact emits_call _
    | string s => exact emits_call _
    | array items => exact emits_call _
    | object members => exact emits_call _
  exact (emits_call _).bind ((emits_optionalJson _).bind (hrows.bind (emits_call _)))

omit [LinearOrder τ] in
theorem emits_writeProfileAnswers :
    Emits (writeProfileAnswers db userId : ExportM φ Unit)
      (Section.array "profile_answers" ((profileAnswers db userId).map AnswerRow.value)).calls () :=
  (emits_query _).bind ((emits_call _).bind ((emits_writeRows _).bind (emits_call _)))

omit [LinearOrder τ] in
theorem emits_writeDiscoveryActions (hsize : 0 < pageSize) :
    Emits (writeDiscoveryActions session db userId pageSize : ExportM φ ℕ)
      (Section.discovery ((outgoing session db userId).ordered.map SwipeRow.value)).calls
      (min (outgoing session db userId).rows.length u64Limit) := by
  have hend : Emits (call .endObject >>= fun _ ↦
      (pure (min (outgoing session db userId).rows.length u64Limit) : ExportM φ ℕ))
      ([.endObject] ++ []) (min (outgoing session db userId).rows.length u64Limit) :=
    (emits_call _).bind (emits_pure _)
  refine ((emits_call _).bind ((emits_writeQuery hsize _ _ _).bind hend)).congr ?_
  simp only [Section.calls, List.cons_append, List.nil_append, List.append_nil]

omit [AsyncFile φ] in
theorem inTransaction_ok {α : Type} {m : ExportM φ α} {a : α} {s s₁ : ExportRun φ}
    (h : m.outcome s = some (.ok a, s₁)) :
    (Privacy.inTransaction m).outcome s = (query a).outcome s₁ := by
  change (m.outcome s).bind _ = _
  rw [h]
  rfl

omit [AsyncFile φ] in
theorem inTransaction_error {α : Type} {m : ExportM φ α} {e : ExportBuildError} {s s₁ : ExportRun φ}
    (h : m.outcome s = some (.error e, s₁)) :
    (Privacy.inTransaction m).outcome s = (rollback e : ExportM φ α).outcome s₁ := by
  change (m.outcome s).bind _ = _
  rw [h]
  rfl

theorem Emits.inTransaction {α : Type} {m : ExportM φ α} {calls : List WriterCall} {a : α}
    (h : Emits m calls a) : Emits (Privacy.inTransaction m) calls a := by
  intro s
  obtain ⟨r, s₁, houtcome, hok⟩ := h s
  cases r with
  | error e =>
      rw [inTransaction_error houtcome]
      refine ⟨_, _, rfl, ?_⟩
      intro x hx
      cases hx
  | ok x =>
      obtain ⟨rfl, hperforms⟩ := hok x rfl
      obtain ⟨r', s', houtcome', hok'⟩ := emits_query x s₁
      rw [inTransaction_ok houtcome]
      refine ⟨r', s', houtcome', fun y hy ↦ ?_⟩
      obtain ⟨rfl, hperforms'⟩ := hok' y hy
      exact ⟨rfl, List.append_nil calls ▸ performs_append hperforms hperforms'⟩

theorem emits_writeSnapshotInner (hsize : 0 < pageSize) :
    Emits (writeSnapshotInner session db userId pageSize : ExportM φ ExportSnapshot)
      ((snapshotSections session db userId).flatMap Section.calls)
      (snapshotOf db userId (min (outgoing session db userId).rows.length u64Limit)) := by
  apply Emits.congr
  · apply Emits.bind (emits_query ())
    apply Emits.bind (emits_query _)
    apply Emits.bind (emits_optionalJson _)
    apply Emits.bind (emits_query (profileOf db userId))
    apply Emits.bind (emits_optionalJson _)
    apply Emits.bind (emits_optionalJson _)
    apply Emits.bind (emits_writeContinuationData hsize)
    apply Emits.bind emits_writeNotificationPreferences
    apply Emits.bind (emits_writeQuery hsize _ _ _)
    apply Emits.bind (emits_writeQuery hsize _ _ _)
    apply Emits.bind emits_writeProfileAnswers
    apply Emits.bind (emits_writeQuery hsize _ _ _)
    apply Emits.bind (emits_writeQuery hsize _ _ _)
    apply Emits.bind (emits_writeQuery hsize _ _ _)
    apply Emits.bind (emits_writeQuery hsize _ _ _)
    apply Emits.bind (emits_writeQuery hsize _ _ _)
    apply Emits.bind (emits_writeQuery hsize _ _ _)
    apply Emits.bind (emits_writeQuery hsize _ _ _)
    apply Emits.bind (emits_writeQuery hsize _ _ _)
    apply Emits.bind (emits_writeQuery hsize _ _ _)
    apply Emits.bind (emits_writeQuery hsize _ _ _)
    apply Emits.bind (emits_writeDiscoveryActions hsize)
    exact emits_pure _
  · simp only [snapshotSections, List.take_succ_cons, List.take_zero, List.flatMap_cons,
      List.flatMap_nil, List.nil_append, List.append_nil, List.append_assoc]

theorem emits_built {α : Type} {m : ExportM φ α} {calls : List WriterCall} {a : α}
    (h : Emits m calls a) : Emits (built m) calls a := by
  intro s
  obtain ⟨r, s', houtcome, hok⟩ := h s
  have hrun : (built m).outcome s = (m.outcome s).map fun result ↦
      (result.1.mapError mapBuildError, result.2) := rfl
  rw [hrun, houtcome, Option.map_some]
  refine ⟨_, _, rfl, ?_⟩
  intro x hx
  cases r with
  | error e => cases hx
  | ok y => exact hok x (congrArg Except.ok (Except.ok.inj hx))

theorem emits_urlForKey (env : Surroundings) (key : Option String) :
    Emits (urlForKey env key : RunM φ DataExportError (Option String)) [] ((env.urlForKey key).getD none) := by
  rw [urlForKey]
  cases env.urlForKey key with
  | none => exact emits_throw _ _ _
  | some url => exact emits_pure url

/-- The members of the exported object. -/
def exportSections (session : SessionText) (db : Snapshot τ) (userId : Uuid) (env : Surroundings)
    (discoveryRows : ℕ) : List Section :=
  snapshotSections session db userId ++
    closingSections env (snapshotOf db userId discoveryRows)
      ((env.urlForKey (profileOf db userId).2).getD none)

theorem emits_writeDocument (hsize : 0 < pageSize) (env : Surroundings) :
    Emits (writeDocument session db userId pageSize env : RunM φ DataExportError Unit)
      (documentCalls (exportSections session db userId env
        (min (outgoing session db userId).rows.length u64Limit))) () := by
  apply Emits.congr
  · apply Emits.bind (emits_built (emits_call _))
    apply Emits.bind (emits_built (emits_writeSnapshotInner hsize).inTransaction)
    apply Emits.bind (emits_urlForKey env _)
    apply Emits.bind (emits_built (emits_call _))
    apply Emits.bind (emits_built (emits_call _))
    apply Emits.bind (emits_built (emits_call _))
    apply Emits.bind (emits_built (emits_call _))
    apply Emits.bind (emits_built (emits_call _))
    apply Emits.bind (emits_built (emits_call _))
    exact emits_built (emits_call _)
  · simp only [documentCalls, exportSections, closingSections, Section.calls, List.flatMap_append,
      List.flatMap_cons, List.flatMap_nil, List.nil_append, List.append_nil, List.append_assoc,
      List.cons_append]
    rfl

theorem exportSections_names (env : Surroundings) (discoveryRows : ℕ) :
    ((exportSections session db userId env discoveryRows).map Section.name).Nodup := by
  have hnames : (exportSections session db userId env discoveryRows).map Section.name =
      ["continuation_wallet", "continuation_usage", "continuation_reservations",
        "advertising_rewards", "notification_preferences", "conversation_notification_preferences",
        "traits", "profile_answers", "legal_choices", "matches", "authored_messages",
        "submitted_reports", "blocked_users", "billing_invoices", "devices", "store_subscriptions",
        "data_requests", "mobile_sessions", "discovery_actions", "account", "profile",
        "preferences", "subscription", "exported_at", "consistency"] := rfl
  rw [hnames]
  decide

/-- Every outgoing decision takes a byte of the file. -/
theorem outgoing_length_le (env : Surroundings) (discoveryRows : ℕ) :
    (outgoing session db userId).rows.length ≤
      (Json.object ((exportSections session db userId env discoveryRows).map fun x ↦
        (x.name, x.json))).text.length := by
  have hmem : ("discovery_actions",
      Json.object [("outgoing", .array ((outgoing session db userId).ordered.map SwipeRow.value))]) ∈
      (exportSections session db userId env discoveryRows).map fun x ↦ (x.name, x.json) := by
    refine List.mem_map.mpr ⟨.discovery ((outgoing session db userId).ordered.map SwipeRow.value),
      ?_, rfl⟩
    exact List.mem_append_left _ (by simp [snapshotSections])
  have hmember := length_text_le_membersText true hmem
  have hitems := length_le_itemsText true ((outgoing session db userId).ordered.map SwipeRow.value)
  have hordered : (outgoing session db userId).ordered.length =
      (outgoing session db userId).rows.length := perm_oldestFirst.length_eq
  rw [List.length_map, hordered] at hitems
  simp only [Json.text, membersText, List.length_cons, List.length_append] at hmember ⊢
  omega

/-- An export that is handed out is the object of its sections. -/
theorem finishFile_ok {s : ExportRun φ} {file : φ} {length : ℕ}
    (h : s.writer.finish = .ok (file, length)) :
    finishFile.outcome s = some (.ok ⟨file, length⟩, s) := by
  change some (_, s) = _
  rw [h]

theorem finishFile_error {s : ExportRun φ} {e : ExportBuildError} (h : s.writer.finish = .error e) :
    finishFile.outcome s = some (.error (mapBuildError e), s) := by
  change some (_, s) = _
  rw [h]

theorem prepareInDirectory_eq [LawfulFile φ] (hsize : 0 < pageSize) (env : Surroundings) {file : φ}
    (hfile : bytes file = []) (maxBytes : UInt64) (outages : List Bool) :
    ∃ r s', (prepareInDirectory session db userId pageSize env).outcome
        ⟨JsonExportWriter.new file maxBytes, outages⟩ = some (r, s') ∧
      ∀ prepared, r = .ok prepared →
        bytes prepared.file = (Json.object ((exportSections session db userId env
          (outgoing session db userId).ordered.length).map fun x ↦ (x.name, x.json))).text ∧
        prepared.bytes = (bytes prepared.file).length ∧
        (bytes prepared.file).length ≤ maxBytes.toNat := by
  have hemits : Emits (writeDocument session db userId pageSize env : RunM φ DataExportError Unit)
      (documentCalls (exportSections session db userId env
        (min (outgoing session db userId).rows.length u64Limit))) () := emits_writeDocument hsize env
  obtain ⟨r, s₁, hwritten, hok⟩ := hemits ⟨JsonExportWriter.new file maxBytes, outages⟩
  rw [prepareInDirectory, RunM.outcome_bind, hwritten, Option.bind_some]
  cases r with
  | error e =>
      refine ⟨_, _, rfl, ?_⟩
      intro prepared h
      cases h
  | ok u =>
      obtain ⟨_, hperforms⟩ := hok u rfl
      cases hresult : s₁.writer.finish with
      | error e =>
          simp only [RunM.outcome_bind, finishFile_error hresult, Option.bind_some]
          refine ⟨_, _, rfl, ?_⟩
          intro prepared h
          cases h
      | ok result =>
          obtain ⟨written, length⟩ := result
          simp only [RunM.outcome_bind, finishFile_ok hresult, Option.bind_some]
          have hcalls : documentCalls (exportSections session db userId env
              (min (outgoing session db userId).rows.length u64Limit)) ≠ [] := List.cons_ne_nil _ _
          obtain ⟨v, hdocument, hwritten, hlength, hmax⟩ :=
            finish_of_performs hcalls hfile hperforms hresult
          rw [document_documentCalls, Option.some.injEq, Document.complete.injEq] at hdocument
          have hrows : (outgoing session db userId).rows.length ≤
              (Json.object ((exportSections session db userId env
                (min (outgoing session db userId).rows.length u64Limit)).map fun x ↦
                  (x.name, x.json))).text.length := outgoing_length_le env _
          have hfits : fileLimit < u64Limit := by decide
          have hlimit := LawfulFile.length_le written
          have hordered : (outgoing session db userId).ordered.length =
              (outgoing session db userId).rows.length := perm_oldestFirst.length_eq
          rw [hdocument, ← hwritten] at hrows
          have hcount : min (outgoing session db userId).rows.length u64Limit =
              (outgoing session db userId).ordered.length := by omega
          have hanswer : ∀ prepared : PreparedDataExport φ, prepared = ⟨written, length⟩ →
              bytes prepared.file = (Json.object ((exportSections session db userId env
                (outgoing session db userId).ordered.length).map fun x ↦ (x.name, x.json))).text ∧
              prepared.bytes = (bytes prepared.file).length ∧
              (bytes prepared.file).length ≤ maxBytes.toNat := by
            rintro _ rfl
            rw [← hcount, hdocument]
            exact ⟨hwritten, hlength, hmax⟩
          rw [recordSelfExport]
          split_ifs with hrecorded
          · exact ⟨_, _, rfl, fun prepared h ↦ hanswer prepared (Except.ok.inj h).symm⟩
          · refine ⟨_, _, rfl, ?_⟩
            intro prepared h
            cases h

end Snapshot

section Complete

/-- A finished file is one value whatever was called, stays within its limit
until a piece fails between two parts, and an export is the object of its
sections. -/
theorem export_complete_and_bounded {φ : Type} [AsyncFile φ] [LawfulFile φ] :
    (∀ calls (file : φ) maxBytes w written length, calls ≠ [] → bytes file = [] →
      Performs calls (JsonExportWriter.new file maxBytes) w → w.finish = .ok (written, length) →
      ∃ v : Json, document calls .empty = some (.complete v) ∧ bytes written = v.text ∧
        length = (bytes written).length ∧ (bytes written).length ≤ maxBytes.toNat) ∧
    (∀ calls (file : φ) maxBytes (call : WriterCall), bytes file = [] →
      Uncut calls (perform calls (JsonExportWriter.new file maxBytes)).1 →
      bytes (perform calls (JsonExportWriter.new file maxBytes)).2.file <+:
          bytes (call.run.outcome (perform calls (JsonExportWriter.new file maxBytes)).2).2.file ∧
        (bytes (call.run.outcome (perform calls (JsonExportWriter.new file maxBytes)).2).2.file).length ≤
          maxBytes.toNat) ∧
    (∀ (ρ κ γ : Type) [LinearOrder κ] (q : PagedQuery ρ κ γ),
      q.ordered.Perm q.rows ∧ q.ordered.Pairwise fun a b ↦ q.key a < q.key b) ∧
    ∀ (τ : Type) [LinearOrder τ] (session : SessionText) (db : Snapshot τ) (userId : Uuid)
      (pageSize : ℕ) (env : Surroundings) (file : φ) (maxBytes : UInt64)
      (outages : List Bool), 0 < pageSize → bytes file = [] →
      ((exportSections session db userId env
        (outgoing session db userId).ordered.length).map Section.name).Nodup ∧
      ∃ r s', (prepareInDirectory session db userId pageSize env).outcome
          ⟨JsonExportWriter.new file maxBytes, outages⟩ = some (r, s') ∧
        ∀ prepared, r = .ok prepared →
          bytes prepared.file = (Json.object ((exportSections session db userId env
            (outgoing session db userId).ordered.length).map fun x ↦ (x.name, x.json))).text ∧
          prepared.bytes = (bytes prepared.file).length ∧
          (bytes prepared.file).length ≤ maxBytes.toNat := by
  refine ⟨?_, ?_, ?_, ?_⟩
  · intro calls file maxBytes w written length hcalls hfile hperforms hfinish
    exact finish_of_performs hcalls hfile hperforms hfinish
  · intro calls file maxBytes call hfile huncut
    exact bounded_perform hfile huncut call
  · intro ρ κ γ _ q
    exact ⟨perm_oldestFirst, pairwise_oldestFirst q.nodup⟩
  · intro τ _ session db userId pageSize env file maxBytes outages hsize hfile
    exact ⟨exportSections_names env _, prepareInDirectory_eq hsize env hfile maxBytes outages⟩

/-- A sign and as many strokes as the number has units. -/
def strokes (n : ℤ) : String :=
  String.ofList ((if n < 0 then '-' else '+') :: List.replicate n.natAbs '1')

def countStrokes (s : String) : Option ℤ :=
  match s.toList with
  | '-' :: cs => some (-cs.length)
  | '+' :: cs => some cs.length
  | _ => none

theorem countStrokes_strokes (n : ℤ) : countStrokes (strokes n) = some n := by
  rw [countStrokes, strokes, String.toList_ofList]
  split_ifs with hsign
  · simp only [List.length_replicate, Option.some.injEq]
    omega
  · simp only [List.length_replicate, Option.some.injEq]
    omega

def exampleSession : SessionText where
  castText := strokes
  isoText := strokes
  readTimestamp := countStrokes
  dateText := strokes
  readDate := countStrokes
  uuidText id := strokes id.toNat
  readUuid s := (countStrokes s).map fun n ↦ BitVec.ofNat 128 n.toNat
  read_castText := countStrokes_strokes
  read_isoText := countStrokes_strokes
  read_dateText := countStrokes_strokes
  read_uuidText id := by
    rw [countStrokes_strokes, Option.map_some, Int.toNat_natCast, BitVec.ofNat_toNat,
      BitVec.setWidth_eq]

def exampleSwipe (target : Uuid) (swipedAt expiresAt : ℤ) : SwipeRow :=
  ⟨1, target, swipedAt, expiresAt, .string "swipe"⟩

/-- User 1 has three matches of one instant and four decisions, three of one
instant; a fifth has expired and a sixth is about the user. -/
def exampleSnapshot : Snapshot ℕ where
  transactionTimestamp := 8
  userAccount := ⟨[⟨1, .string "account"⟩], by decide⟩
  userProfile := ∅
  userPreferences := ∅
  effectiveUserSubscription := ∅
  continuationWallet := ∅
  continuationUsage := ∅
  continuationReservation := ∅
  advertisingRewardIntent := ∅
  userNotificationPreference := ∅
  matchNotificationPreference := ∅
  matchInit := ⟨[⟨13, 1, 2, 5, .string "m", by decide⟩, ⟨11, 3, 1, 5, .string "m", by decide⟩,
    ⟨12, 1, 4, 5, .string "m", by decide⟩], by decide⟩
  userTrait := ∅
  trait := ∅
  userProfileAnswer := ∅
  userConsent := ∅
  chatMessage := ∅
  userReport := ∅
  userBlock := ∅
  billingInvoice := ∅
  deviceToken := ∅
  billingStoreSubscription := ∅
  dataSubjectRequest := ∅
  refreshTokenFamily := ∅
  swipeDecision := ⟨[exampleSwipe 6 7 9, exampleSwipe 4 7 9, exampleSwipe 5 7 9, exampleSwipe 3 2 9,
    exampleSwipe 7 1 8, ⟨2, 1, 1, 9, .string "swipe"⟩], by decide⟩

def exampleSurroundings : Surroundings := ⟨0, 0, 0, strokes, fun _ ↦ some none, true⟩

/-- An object of one member, a disk that refuses the first write, and an export
in pages of two rows. -/
theorem export_complete_and_bounded_pages :
    (∃ v : Json, document [.startObject none, .property "a" (some .null), .endObject] .empty =
      some (.complete v) ∧ [123, 34, 97, 34, 58, 110, 117, 108, 108, 125] = v.text) ∧
    (bytes (WriterCall.endObject.run.outcome (perform [.startObject none]
      (JsonExportWriter.new (DiskFile.empty [some 0]) 1)).2).2.file).length ≤ 1 ∧
    (matches_ exampleSession exampleSnapshot 1).ordered.map MatchRow.id = [11, 12, 13] ∧
    (outgoing exampleSession exampleSnapshot 1).ordered.map SwipeRow.targetId = [3, 4, 5, 6] ∧
    ∃ prepared s', (prepareInDirectory exampleSession exampleSnapshot 1 2 exampleSurroundings).outcome
        ⟨JsonExportWriter.new (DiskFile.empty []) 2000, []⟩ = some (.ok prepared, s') ∧
      bytes prepared.file = (Json.object ((exportSections exampleSession exampleSnapshot 1
        exampleSurroundings 4).map fun x ↦ (x.name, x.json))).text ∧
      prepared.bytes = (bytes prepared.file).length ∧ (bytes prepared.file).length ≤ 2000 := by
  obtain ⟨hcalls, hdisk, _, hprepare⟩ := export_complete_and_bounded (φ := DiskFile)
  have hobject : Performs [.startObject none, .property "a" (some .null), .endObject]
      (JsonExportWriter.new (DiskFile.empty []) 10) (perform [.startObject none,
        .property "a" (some .null), .endObject] (JsonExportWriter.new (DiskFile.empty []) 10)).2 := by
    refine ⟨?_, rfl⟩
    decide +kernel
  obtain ⟨v, hdocument, htext, _⟩ := hcalls _ _ _ _ _ 10 (List.cons_ne_nil _ _) rfl hobject rfl
  have huncut : Uncut [.startObject none] (perform [.startObject none]
      (JsonExportWriter.new (DiskFile.empty [some 0]) 1)).1 := .cons (Or.inl trivial) .nil
  obtain ⟨_, r, s', houtcome, hok⟩ := hprepare ℕ exampleSession exampleSnapshot 1 2
    exampleSurroundings (DiskFile.empty []) 2000 [] Nat.two_pos rfl
  have hanswered : ((prepareInDirectory exampleSession exampleSnapshot 1 2 exampleSurroundings).outcome
      ⟨JsonExportWriter.new (DiskFile.empty []) 2000, []⟩).any (fun result ↦ result.1.isOk) = true := by
    decide +kernel
  rw [houtcome] at hanswered
  cases r with
  | error e => cases hanswered
  | ok prepared =>
      refine ⟨⟨v, hdocument, htext⟩, (hdisk _ _ 1 .endObject rfl huncut).2, by decide +kernel,
        by decide +kernel, prepared, s', houtcome, ?_⟩
      have hfile := hok prepared rfl
      have hrows : (outgoing exampleSession exampleSnapshot 1).ordered.length = 4 := by decide +kernel
      rw [hrows] at hfile
      exact hfile

section Parts

variable {w : JsonExportWriter DiskFile} {value : List UInt8}

/-- An item at the beginning is only its text. -/
theorem outcome_item (hcontexts : w.contexts = []) (hwritten : w.writtenBytes = 0) (v : Json) :
    (WriterCall.run (.item (some v))).outcome w = (JsonExportWriter.write v.text).outcome w := by
  have hbefore : (JsonExportWriter.beforeValue none).outcome w = (.ok (), w) := by
    have hget : (get : WriterM DiskFile (JsonExportWriter DiskFile)).outcome w = (.ok w, w) := rfl
    simp only [JsonExportWriter.beforeValue, outcome_bind, hget, hcontexts, outcome_refuse, hwritten]
    rfl
  have htext : (JsonExportWriter.toVec (some v)).outcome w = (.ok v.text, w) := rfl
  change (JsonExportWriter.beforeValue none >>= fun _ ↦
    JsonExportWriter.toVec (some v) >>= JsonExportWriter.write).outcome w = _
  simp only [outcome_bind, hbefore, htext]

/-- A piece of two parts, of the first of which the disk takes one byte. -/
theorem writeAll_cut (h : maxBufSize < value.length) :
    (writeAll (DiskFile.empty [some 1]) value).1 = false ∧
      (writeAll (DiskFile.empty [some 1]) value).2.bytes.length = 1 ∧
      (writeAll (DiskFile.empty [some 1]) value).2.faults = [] ∧
      (writeAll (DiskFile.empty [some 1]) value).2.failed = false := by
  have hpart : (value.take maxBufSize).length = maxBufSize := by
    rw [List.length_take]
    omega
  have htaken : (DiskFile.empty [some 1]).taken (value.take maxBufSize) = 1 := by
    rw [DiskFile.taken, hpart]
    decide
  have hfailed : ((DiskFile.empty [some 1]).put (value.take maxBufSize)).failed = true := by
    rw [DiskFile.failed_put, htaken, hpart]
    decide
  have hbuffer : 1 ≤ maxBufSize := by decide
  have hfirst : value.isEmpty = false := List.isEmpty_eq_false_iff_exists_mem.mpr
    (List.exists_mem_of_length_pos (by omega))
  have hrest : (value.drop maxBufSize).isEmpty = false := List.isEmpty_eq_false_iff_exists_mem.mpr
    (List.exists_mem_of_length_pos (by rw [List.length_drop]; omega))
  obtain ⟨fuel, hfuel⟩ : ∃ fuel, value.length = fuel + 2 := ⟨value.length - 2, by omega⟩
  have hall : writeAll (DiskFile.empty [some 1]) value =
      (false, ((DiskFile.empty [some 1]).put (value.take maxBufSize)).reported) := by
    change DiskFile.writeParts value.length (DiskFile.empty [some 1]) value = _
    rw [hfuel, DiskFile.writeParts, hfirst, DiskFile.writeParts, hrest, hfailed]
    rfl
  have hbytes : ((DiskFile.empty [some 1]).put (value.take maxBufSize)).bytes.length = 1 := by
    rw [DiskFile.bytes_put, htaken, List.length_append, List.length_take, hpart]
    decide
  rw [hall]
  exact ⟨rfl, hbytes, rfl, rfl⟩

theorem item_takes (hcontexts : w.contexts = []) (hwritten : w.writtenBytes = 0) {v : Json}
    (htakes : w.Takes v.text) :
    ((WriterCall.run (.item (some v))).outcome w).2.file = (writeAll w.file v.text).2 ∧
      ((writeAll w.file v.text).1 = false → ((WriterCall.run (.item (some v))).outcome w).2 =
        { w with file := (writeAll w.file v.text).2 }) := by
  rw [outcome_item hcontexts hwritten, outcome_write, if_pos htakes]
  cases (writeAll w.file v.text).1 with
  | false => exact ⟨rfl, fun _ ↦ rfl⟩
  | true => exact ⟨rfl, fun h ↦ nomatch h⟩

/-- The piece is in the file once, and before it the byte that was not counted. -/
theorem length_perform_cut {v : Json} {maxBytes : UInt64} (hlong : maxBufSize < v.text.length)
    (hmax : v.text.length ≤ maxBytes.toNat) (hroom : 1 + v.text.length ≤ fileLimit) :
    (bytes (perform [.item (some v), .item (some v)]
      (JsonExportWriter.new (DiskFile.empty [some 1]) maxBytes)).2.file).length = 1 + v.text.length := by
  have htakes : ∀ file : DiskFile, (JsonExportWriter.new file maxBytes).Takes v.text := by
    intro file
    refine ⟨hmax.trans_lt maxBytes.toNat_lt, ?_⟩
    change min (0 + v.text.length) _ ≤ maxBytes.toNat
    omega
  obtain ⟨herror, hone, hfaults, hfailed⟩ := writeAll_cut hlong
  have hfirst := (item_takes rfl rfl (htakes (DiskFile.empty [some 1]))).2 herror
  have hsecond := (item_takes rfl rfl (htakes (writeAll (DiskFile.empty [some 1]) v.text).2)).1
  have hbytes := DiskFile.bytes_writeAll hfaults hfailed (hone ▸ hroom)
  rw [perform, hfirst, perform]
  change (bytes ((WriterCall.run (.item (some v))).outcome
    (JsonExportWriter.new (writeAll (DiskFile.empty [some 1]) v.text).2 maxBytes)).2.file).length = _
  rw [hsecond]
  change (writeAll (writeAll (DiskFile.empty [some 1]) v.text).2 v.text).2.bytes.length = _
  rw [hbytes, List.length_append, hone]

theorem length_text_replicate (n : ℕ) :
    (Json.string (String.ofList (List.replicate n 'a'))).text.length = n + 2 := by
  have hutf8 : ∀ n, utf8 (List.replicate n 'a') = List.replicate n 97 := by
    have hchar : String.utf8EncodeChar 'a' = [97] := by decide
    intro n
    induction n with
    | zero => rfl
    | succ n ih =>
        rw [List.replicate_succ, utf8, List.flatMap_cons, hchar, List.replicate_succ]
        exact congrArg _ ih
  have hescaped : ∀ n, (List.replicate n 97).flatMap escaped = List.replicate n 97 := by
    have hbyte : escaped 97 = [97] := by decide
    intro n
    induction n with
    | zero => rfl
    | succ n ih =>
        rw [List.replicate_succ, List.flatMap_cons, hbyte]
        exact congrArg _ ih
  rw [Json.text, quoted, String.toList_ofList, hutf8, hescaped]
  simp

end Parts

/-- A string of two parts. -/
def longText : Json := .string (String.ofList (List.replicate maxBufSize 'a'))

/-- No call at all leaves an empty file, which is no value; and a writer that is
used again after the first of two parts has failed has not counted what was
written of it. -/
theorem empty_file_and_uncounted_part :
    (Performs [] (JsonExportWriter.new (DiskFile.empty []) 10)
        (JsonExportWriter.new (DiskFile.empty []) 10) ∧
      (JsonExportWriter.new (DiskFile.empty []) 10).finish = .ok (DiskFile.empty [], 0) ∧
      ∀ v : Json, v.text ≠ []) ∧
    (2097154 : UInt64).toNat < (bytes (perform [.item (some longText), .item (some longText)]
      (JsonExportWriter.new (DiskFile.empty [some 1]) 2097154)).2.file).length := by
  refine ⟨⟨⟨fun _ h ↦ absurd h List.not_mem_nil, rfl⟩, rfl, Json.text_ne_nil⟩, ?_⟩
  have hlength : longText.text.length = 2097154 := length_text_replicate maxBufSize
  have hlong : maxBufSize < longText.text.length := by
    rw [hlength]
    decide
  have hroom : 1 + longText.text.length ≤ fileLimit := by
    rw [hlength]
    decide
  have hmax : longText.text.length ≤ (2097154 : UInt64).toNat := by
    rw [hlength]
    decide
  rw [length_perform_cut hlong hmax hroom, hlength]
  decide

end Complete

end Histae.Privacy
