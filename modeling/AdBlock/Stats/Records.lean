import AdBlock.Json.Struct

/-!
# The records of the logs

The records of requests and DNS queries that are shown and logged, and the part of a request
record that is fetched on demand, with the JSON they are written as.  A request record is read
back as it was written (`fromJson_toJson`).
-/

/-! ### Requests -/

inductive RequestKind where
  | forwarded
  | blocked
  | tunnel
  | failed
  deriving DecidableEq, Repr

namespace RequestKind

def name : RequestKind → Text
  | .forwarded => "forwarded".toList
  | .blocked => "blocked".toList
  | .tunnel => "tunnel".toList
  | .failed => "failed".toList

def all : List RequestKind :=
  [.forwarded, .blocked, .tunnel, .failed]

def read (v : Json) : Option RequestKind :=
  v.asStr.bind fun s => all.find? fun kind => kind.name = s

theorem read_name (kind : RequestKind) :
  read (.str kind.name) = some kind
  := by
  cases kind <;> decide

end RequestKind

/-- A proxied request, with what was captured of it. -/
structure RequestRecord where
  seq : UInt64 := 0
  tsMs : UInt64 := 0
  method : Text := []
  status : UInt16 := 0
  kind : RequestKind := .forwarded
  reqType : Text := []
  url : Text := []
  reqBody : Text := []
  respBody : Text := []
  reqBodyRaw : Text := []
  respBodyRaw : Text := []
  reqHeaders : Text := []
  respHeaders : Text := []
  blockedBy : Text := []
  scriptlets : Text := []
  ech : Bool := false
  deriving DecidableEq, Repr

namespace RequestRecord

/-- The fields as they are written.  What was captured is left out when it is empty. -/
def fields (r : RequestRecord) : List (Text × Option Json) :=
  [("seq".toList, some (.ofU64 r.seq)),
    ("ts_ms".toList, some (.ofU64 r.tsMs)),
    ("method".toList, some (.str r.method)),
    ("status".toList, some (.ofU16 r.status)),
    ("kind".toList, some (.str r.kind.name)),
    ("type".toList, some (.str r.reqType)),
    ("url".toList, some (.str r.url)),
    ("req_body".toList, Json.skipEmpty r.reqBody),
    ("resp_body".toList, Json.skipEmpty r.respBody),
    ("req_body_raw".toList, Json.skipEmpty r.reqBodyRaw),
    ("resp_body_raw".toList, Json.skipEmpty r.respBodyRaw),
    ("req_headers".toList, Json.skipEmpty r.reqHeaders),
    ("resp_headers".toList, Json.skipEmpty r.respHeaders),
    ("blocked_by".toList, some (.str r.blockedBy)),
    ("scriptlets".toList, Json.skipEmpty r.scriptlets),
    ("ech".toList, some (.bool r.ech))]

def toJson (r : RequestRecord) : Json :=
  Json.record r.fields

/-- Read a record.  A field that is missing has its default. -/
def fromJson (v : Json) : Option RequestRecord := do
  let seq ← v.field "seq".toList 0 Json.readU64
  let tsMs ← v.field "ts_ms".toList 0 Json.readU64
  let method ← v.field "method".toList [] Json.asStr
  let status ← v.field "status".toList 0 Json.readU16
  let kind ← v.field "kind".toList .forwarded RequestKind.read
  let reqType ← v.field "type".toList [] Json.asStr
  let url ← v.field "url".toList [] Json.asStr
  let reqBody ← v.field "req_body".toList [] Json.asStr
  let respBody ← v.field "resp_body".toList [] Json.asStr
  let reqBodyRaw ← v.field "req_body_raw".toList [] Json.asStr
  let respBodyRaw ← v.field "resp_body_raw".toList [] Json.asStr
  let reqHeaders ← v.field "req_headers".toList [] Json.asStr
  let respHeaders ← v.field "resp_headers".toList [] Json.asStr
  let blockedBy ← v.field "blocked_by".toList [] Json.asStr
  let scriptlets ← v.field "scriptlets".toList [] Json.asStr
  let ech ← v.field "ech".toList false Json.asBool
  return { seq, tsMs, method, status, kind, reqType, url, reqBody, respBody, reqBodyRaw,
           respBodyRaw, reqHeaders, respHeaders, blockedBy, scriptlets, ech }

/-- The keys of a record are different. -/
theorem nodup_keys (r : RequestRecord) :
  (r.fields.map Prod.fst).Nodup
  := by
  have hkeys : ((fields {}).map Prod.fst).Nodup := by decide
  exact hkeys

/-- A field is looked up as it is written. -/
theorem get_toJson (r : RequestRecord) {i : ℕ} {key : Text} {v : Option Json}
    (h : r.fields[i]? = some (key, v)) :
  r.toJson.get key = v
  := Json.get_record r.nodup_keys (List.mem_of_getElem? h)

theorem toJson_of_scalars (r : RequestRecord) :
  r.toJson.Plain ∧ r.toJson.depth ≤ 1
  := by
  apply Json.record_of_scalars
  simp only [fields, List.forall_mem_cons, Option.mem_some_iff, forall_eq', Json.scalar_ofU64,
    Json.scalar_ofU16, Json.scalar_str, Json.scalar_bool, true_and, List.not_mem_nil,
    false_implies, implies_true, and_true]
  and_intros <;> exact fun _ hv => Json.scalar_skipEmpty hv

/-- A record is read back as it was written. -/
theorem fromJson_toJson (r : RequestRecord) :
  fromJson r.toJson = some r
  := by
  rw [fromJson,
    Json.field_some (r.get_toJson (i := 0) rfl) (Json.readU64_ofU64 r.seq),
    Json.field_some (r.get_toJson (i := 1) rfl) (Json.readU64_ofU64 r.tsMs),
    Json.field_str (r.get_toJson (i := 2) rfl),
    Json.field_some (r.get_toJson (i := 3) rfl) (Json.readU16_ofU16 r.status),
    Json.field_some (r.get_toJson (i := 4) rfl) (RequestKind.read_name r.kind),
    Json.field_str (r.get_toJson (i := 5) rfl),
    Json.field_str (r.get_toJson (i := 6) rfl),
    Json.field_skipEmpty (r.get_toJson (i := 7) rfl),
    Json.field_skipEmpty (r.get_toJson (i := 8) rfl),
    Json.field_skipEmpty (r.get_toJson (i := 9) rfl),
    Json.field_skipEmpty (r.get_toJson (i := 10) rfl),
    Json.field_skipEmpty (r.get_toJson (i := 11) rfl),
    Json.field_skipEmpty (r.get_toJson (i := 12) rfl),
    Json.field_str (r.get_toJson (i := 13) rfl),
    Json.field_skipEmpty (r.get_toJson (i := 14) rfl),
    Json.field_bool (r.get_toJson (i := 15) rfl)]
  rfl

end RequestRecord

/-- What can be captured of a request. -/
inductive CaptureSlot where
  | reqBody
  | respBody
  | reqBodyRaw
  | respBodyRaw
  | reqHeaders
  | respHeaders
  | scriptlets
  deriving DecidableEq, Repr

/-- Put what was captured into the record. -/
def CaptureSlot.apply (slot : CaptureSlot) (record : RequestRecord) (text : Text) :
    RequestRecord :=
  match slot with
  | .reqBody => { record with reqBody := text }
  | .respBody => { record with respBody := text }
  | .reqBodyRaw => { record with reqBodyRaw := text }
  | .respBodyRaw => { record with respBodyRaw := text }
  | .reqHeaders => { record with reqHeaders := text }
  | .respHeaders => { record with respHeaders := text }
  | .scriptlets => { record with scriptlets := text }

/-- The part of a request record that is fetched on demand. -/
structure RequestDetail where
  seq : UInt64 := 0
  reqHeaders : Text := []
  respHeaders : Text := []
  reqBody : Text := []
  respBody : Text := []
  reqBodyRaw : Text := []
  respBodyRaw : Text := []
  scriptlets : Text := []
  deriving DecidableEq, Repr

namespace RequestDetail

/-- What was captured of a request, if anything was. -/
def fromRecord (r : RequestRecord) : Option RequestDetail :=
  if r.reqHeaders.isEmpty && r.respHeaders.isEmpty && r.reqBody.isEmpty && r.respBody.isEmpty
      && r.scriptlets.isEmpty then none
  else some
    { seq := r.seq, reqHeaders := r.reqHeaders, respHeaders := r.respHeaders
      reqBody := r.reqBody, respBody := r.respBody, reqBodyRaw := r.reqBodyRaw
      respBodyRaw := r.respBodyRaw, scriptlets := r.scriptlets }

/-- The fields as they are written.  There is no time among them. -/
def fields (d : RequestDetail) : List (Text × Option Json) :=
  [("seq".toList, some (.ofU64 d.seq)),
    ("req_headers".toList, Json.skipEmpty d.reqHeaders),
    ("resp_headers".toList, Json.skipEmpty d.respHeaders),
    ("req_body".toList, Json.skipEmpty d.reqBody),
    ("resp_body".toList, Json.skipEmpty d.respBody),
    ("req_body_raw".toList, Json.skipEmpty d.reqBodyRaw),
    ("resp_body_raw".toList, Json.skipEmpty d.respBodyRaw),
    ("scriptlets".toList, Json.skipEmpty d.scriptlets)]

def toJson (d : RequestDetail) : Json :=
  Json.record d.fields

theorem nodup_keys (d : RequestDetail) :
  (d.fields.map Prod.fst).Nodup
  := by
  have hkeys : ((fields {}).map Prod.fst).Nodup := by decide
  exact hkeys

theorem toJson_of_scalars (d : RequestDetail) :
  d.toJson.Plain ∧ d.toJson.depth ≤ 1
  := by
  apply Json.record_of_scalars
  simp only [fields, List.forall_mem_cons, Option.mem_some_iff, forall_eq', Json.scalar_ofU64,
    true_and, List.not_mem_nil, false_implies, implies_true, and_true]
  and_intros <;> exact fun _ hv => Json.scalar_skipEmpty hv

theorem get_seq (d : RequestDetail) :
  d.toJson.get "seq".toList = some (.ofU64 d.seq)
  := Json.get_record d.nodup_keys (List.mem_of_getElem? (i := 0) rfl)

/-- Read what was captured.  A field that is missing has its default. -/
def fromJson (v : Json) : Option RequestDetail := do
  let seq ← v.field "seq".toList 0 Json.readU64
  let reqHeaders ← v.field "req_headers".toList [] Json.asStr
  let respHeaders ← v.field "resp_headers".toList [] Json.asStr
  let reqBody ← v.field "req_body".toList [] Json.asStr
  let respBody ← v.field "resp_body".toList [] Json.asStr
  let reqBodyRaw ← v.field "req_body_raw".toList [] Json.asStr
  let respBodyRaw ← v.field "resp_body_raw".toList [] Json.asStr
  let scriptlets ← v.field "scriptlets".toList [] Json.asStr
  return { seq, reqHeaders, respHeaders, reqBody, respBody, reqBodyRaw, respBodyRaw, scriptlets }

theorem get_toJson (d : RequestDetail) {i : ℕ} {key : Text} {v : Option Json}
    (h : d.fields[i]? = some (key, v)) :
  d.toJson.get key = v
  := Json.get_record d.nodup_keys (List.mem_of_getElem? h)

/-- What was captured is read back as it was written. -/
theorem fromJson_toJson (d : RequestDetail) :
  fromJson d.toJson = some d
  := by
  rw [fromJson,
    Json.field_some (d.get_toJson (i := 0) rfl) (Json.readU64_ofU64 d.seq),
    Json.field_skipEmpty (d.get_toJson (i := 1) rfl),
    Json.field_skipEmpty (d.get_toJson (i := 2) rfl),
    Json.field_skipEmpty (d.get_toJson (i := 3) rfl),
    Json.field_skipEmpty (d.get_toJson (i := 4) rfl),
    Json.field_skipEmpty (d.get_toJson (i := 5) rfl),
    Json.field_skipEmpty (d.get_toJson (i := 6) rfl),
    Json.field_skipEmpty (d.get_toJson (i := 7) rfl)]
  rfl

/-- The time is not written. -/
theorem get_tsMs (d : RequestDetail) :
  d.toJson.get "ts_ms".toList = none
  := by
  apply Json.get_obj_eq_none
  intro hkey
  obtain ⟨f, hf, hfkey⟩ := List.mem_map.mp hkey
  obtain ⟨g, hg, hgf⟩ := List.mem_filterMap.mp hf
  obtain ⟨w, -, rfl⟩ := Option.map_eq_some_iff.mp hgf
  have hmem : "ts_ms".toList ∈ d.fields.map Prod.fst := hfkey ▸ List.mem_map_of_mem hg
  have hnot : "ts_ms".toList ∉ (fields {}).map Prod.fst := by decide
  exact hnot hmem

end RequestDetail

/-! ### DNS queries -/

inductive DnsOutcome where
  | resolved
  | cached
  | blocked
  | rewritten
  | error
  deriving DecidableEq, Repr

def DnsOutcome.name : DnsOutcome → Text
  | .resolved => "resolved".toList
  | .cached => "cached".toList
  | .blocked => "blocked".toList
  | .rewritten => "rewritten".toList
  | .error => "error".toList

/-- A DNS query. -/
structure DnsRecord where
  seq : UInt64
  tsMs : UInt64
  domain : Text
  qtype : Text
  outcome : DnsOutcome
  rcode : Text
  answers : Text
  upstream : Text
  ech : Bool
  blockedBy : Text
  elapsedMs : UInt64
  proxy : Bool
  deriving DecidableEq, Repr

namespace DnsRecord

def fields (r : DnsRecord) : List (Text × Option Json) :=
  [("seq".toList, some (.ofU64 r.seq)),
    ("ts_ms".toList, some (.ofU64 r.tsMs)),
    ("domain".toList, some (.str r.domain)),
    ("qtype".toList, some (.str r.qtype)),
    ("outcome".toList, some (.str r.outcome.name)),
    ("rcode".toList, some (.str r.rcode)),
    ("answers".toList, some (.str r.answers)),
    ("upstream".toList, some (.str r.upstream)),
    ("ech".toList, some (.bool r.ech)),
    ("blocked_by".toList, some (.str r.blockedBy)),
    ("elapsed_ms".toList, some (.ofU64 r.elapsedMs)),
    ("proxy".toList, some (.bool r.proxy))]

def toJson (r : DnsRecord) : Json :=
  Json.record r.fields

theorem nodup_keys (r : DnsRecord) :
  (r.fields.map Prod.fst).Nodup
  := by
  have hkeys : (["seq", "ts_ms", "domain", "qtype", "outcome", "rcode", "answers", "upstream", "ech",
      "blocked_by", "elapsed_ms", "proxy"].map String.toList).Nodup := by
    decide
  exact hkeys

theorem get_toJson (r : DnsRecord) {i : ℕ} {key : Text} {v : Option Json}
    (h : r.fields[i]? = some (key, v)) :
  r.toJson.get key = v
  := Json.get_record r.nodup_keys (List.mem_of_getElem? h)

theorem toJson_of_scalars (r : DnsRecord) :
  r.toJson.Plain ∧ r.toJson.depth ≤ 1
  := by
  apply Json.record_of_scalars
  simp only [fields, List.forall_mem_cons, Option.mem_some_iff, forall_eq', Json.scalar_ofU64,
    Json.scalar_str, Json.scalar_bool, true_and, List.not_mem_nil, false_implies, implies_true]

end DnsRecord
