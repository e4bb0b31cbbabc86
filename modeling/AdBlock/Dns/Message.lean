import AdBlock.Rust.Bytes
import AdBlock.Rust.Net

/-!
# DNS messages

Messages as the `hickory_proto` crate has them.  What the program asks of the crate besides the
data itself is collected in `Hickory`.
-/

namespace Dns

/-- The type of a record, by its number. -/
structure RecordType where
  code : UInt16
  deriving DecidableEq, Repr

namespace RecordType

def a : RecordType := ⟨1⟩

def aaaa : RecordType := ⟨28⟩

end RecordType

inductive ResponseCode where
  | noError
  | formErr
  | servFail
  | nxDomain
  | notImp
  | refused
  | other (code : UInt16)
  deriving DecidableEq, Repr

inductive OpCode where
  | query
  | other (code : UInt8)
  deriving DecidableEq, Repr

inductive MessageType where
  | query
  | response
  deriving DecidableEq, Repr

/-- What the program uses of the names and of the texts of the `hickory_proto` crate. -/
structure Hickory where
  Name : Type
  fromUtf8 : Text → Except Text Name
  toUtf8 : Name → Text
  toAscii : Name → Text
  recordTypeText : RecordType → Text
  responseCodeText : ResponseCode → Text

/-- Names as they are written. -/
def Hickory.written : Hickory where
  Name := Text
  fromUtf8 := .ok
  toUtf8 := id
  toAscii := id
  recordTypeText
    | ⟨1⟩ => ['A']
    | ⟨28⟩ => "AAAA".toList
    | ⟨code⟩ => Net.decimal code.toNat
  responseCodeText
    | .noError => "No Error".toList
    | .refused => "Query Refused".toList
    | _ => "Error".toList

variable (H : Hickory)

inductive SvcParamKey where
  | echConfigList
  | other (code : UInt16)
  deriving DecidableEq, Repr

inductive SvcParamValue where
  | echConfigList (list : Bytes)
  | other (bytes : Bytes)
  deriving DecidableEq, Repr

structure Svcb where
  svcPriority : UInt16
  targetName : H.Name
  svcParams : List (SvcParamKey × SvcParamValue)

inductive RData where
  | a (ip : Net.Ipv4Addr)
  | aaaa (ip : Net.Ipv6Addr)
  | cname (target : H.Name)
  | https (svcb : Svcb H)
  | svcb (svcb : Svcb H)
  | other (type : RecordType) (bytes : Bytes)

/-- A record.  The time to live is in seconds, of 32 bits. -/
structure Record where
  name : H.Name
  ttl : UInt32
  dnsClass : UInt16
  data : RData H

structure Query where
  name : H.Name
  queryType : RecordType
  queryClass : UInt16

structure Metadata where
  id : UInt16
  messageType : MessageType
  opCode : OpCode
  authoritative : Bool
  truncation : Bool
  recursionDesired : Bool
  recursionAvailable : Bool
  responseCode : ResponseCode
  deriving DecidableEq, Repr

structure Edns where
  maxPayload : UInt16
  deriving DecidableEq, Repr

structure Message where
  metadata : Metadata
  queries : List (Query H)
  answers : List (Record H)
  authorities : List (Record H)
  additionals : List (Record H)
  edns : Option Edns
  signature : Option Bytes

variable {H}

/-- The class of the internet. -/
def classIn : UInt16 := 1

def Record.fromRdata (name : H.Name) (ttl : UInt32) (data : RData H) : Record H :=
  { name, ttl, dnsClass := classIn, data }

def Query.query (name : H.Name) (queryType : RecordType) : Query H :=
  { name, queryType, queryClass := classIn }

namespace Message

/-- A message without questions and records. -/
def new (id : UInt16) (messageType : MessageType) (opCode : OpCode) : Message H where
  metadata :=
    { id, messageType, opCode
      authoritative := false
      truncation := false
      recursionDesired := false
      recursionAvailable := false
      responseCode := .noError }
  queries := []
  answers := []
  authorities := []
  additionals := []
  edns := none
  signature := none

/-- `Message::query`, which draws the id. -/
def query (id : UInt16) : Message H :=
  new id .query .query

def response (id : UInt16) (opCode : OpCode) : Message H :=
  new id .response opCode

def addAnswer (msg : Message H) (record : Record H) : Message H :=
  { msg with answers := msg.answers ++ [record] }

/-- The records are changed, one by one. -/
def mapRecords (f : Record H → Record H) (msg : Message H) : Message H :=
  { msg with
    answers := msg.answers.map f
    authorities := msg.authorities.map f
    additionals := msg.additionals.map f }

/-- All records. -/
def records (msg : Message H) : List (Record H) :=
  msg.answers ++ msg.authorities ++ msg.additionals

end Message

/-! ### Responses -/

/-- What is sent back for an extension in the request. -/
def ednsFor (request : Message H) : Option Edns :=
  if request.edns.isSome then some { maxPayload := 1232 } else none

def baseResponse (request : Message H) : Message H :=
  let resp : Message H := .response request.metadata.id .query
  { resp with
    metadata :=
      { resp.metadata with
        recursionDesired := request.metadata.recursionDesired
        recursionAvailable := true }
    queries := request.queries
    edns := ednsFor request }

def finishResponse (resp request : Message H) : Message H :=
  { resp with
    metadata :=
      { resp.metadata with
        id := request.metadata.id
        messageType := .response
        opCode := .query
        recursionDesired := request.metadata.recursionDesired
        recursionAvailable := true
        authoritative := false }
    queries := request.queries
    signature := none
    edns := ednsFor request }

def errorResponse (request : Message H) (code : ResponseCode) : Message H :=
  let resp := baseResponse request
  { resp with metadata := { resp.metadata with responseCode := code } }

/-- The parameters without those for encrypted hellos. -/
def Svcb.stripEch (svcb : Svcb H) : Svcb H :=
  { svcb with svcParams := svcb.svcParams.filter fun p => p.1 ≠ .echConfigList }

def Record.stripEch (r : Record H) : Record H :=
  match r.data with
  | .https svcb => { r with data := .https svcb.stripEch }
  | .svcb svcb => { r with data := .svcb svcb.stripEch }
  | _ => r

def stripEchParams (msg : Message H) : Message H :=
  { msg with
    answers := msg.answers.map Record.stripEch
    additionals := msg.additionals.map Record.stripEch }

end Dns
