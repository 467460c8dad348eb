import Records.Log.Logger

/-!
Problems that a request is answered with: a status, a detail and the values that explain it. Each
one is reported when it arises.
-/
namespace Records

inductive ProblemKind
  | general
  | notFound
  | relatedNotFound
  | invalid
deriving DecidableEq

structure Problem where
  kind : ProblemKind
  status : Int
  detail : Value
  headers : Value := .null
  context : List (String × Value)
deriving DecidableEq

inductive ProblemError
  /-- The status has no phrase to stand for a missing detail. -/
  | unknownStatus (status : Int)
  | levelNotText (v : Value)
deriving DecidableEq

def ProblemError.message : ProblemError → String
  | .unknownStatus status => toString status ++ " is not a valid HTTPStatus"
  | .levelNotText v => "attribute name must be string, not '" ++ v.typeName ++ "'"

/-- The phrases of the standard statuses. -/
def statusPhrases : List (Int × String) := [
  (100, "Continue"), (101, "Switching Protocols"), (102, "Processing"), (103, "Early Hints"),
  (200, "OK"), (201, "Created"), (202, "Accepted"), (203, "Non-Authoritative Information"),
  (204, "No Content"), (205, "Reset Content"), (206, "Partial Content"), (207, "Multi-Status"),
  (208, "Already Reported"), (226, "IM Used"), (300, "Multiple Choices"),
  (301, "Moved Permanently"), (302, "Found"), (303, "See Other"), (304, "Not Modified"),
  (305, "Use Proxy"), (307, "Temporary Redirect"), (308, "Permanent Redirect"),
  (400, "Bad Request"), (401, "Unauthorized"), (402, "Payment Required"), (403, "Forbidden"),
  (404, "Not Found"), (405, "Method Not Allowed"), (406, "Not Acceptable"),
  (407, "Proxy Authentication Required"), (408, "Request Timeout"), (409, "Conflict"),
  (410, "Gone"), (411, "Length Required"), (412, "Precondition Failed"),
  (413, "Request Entity Too Large"), (414, "Request-URI Too Long"), (415, "Unsupported Media Type"),
  (416, "Requested Range Not Satisfiable"), (417, "Expectation Failed"), (418, "I'm a Teapot"),
  (421, "Misdirected Request"), (422, "Unprocessable Entity"), (423, "Locked"),
  (424, "Failed Dependency"), (425, "Too Early"), (426, "Upgrade Required"),
  (428, "Precondition Required"), (429, "Too Many Requests"),
  (431, "Request Header Fields Too Large"), (451, "Unavailable For Legal Reasons"),
  (500, "Internal Server Error"), (501, "Not Implemented"), (502, "Bad Gateway"),
  (503, "Service Unavailable"), (504, "Gateway Timeout"), (505, "HTTP Version Not Supported"),
  (506, "Variant Also Negotiates"), (507, "Insufficient Storage"), (508, "Loop Detected"),
  (510, "Not Extended"), (511, "Network Authentication Required")]

def Level.ofName? (name : String) : Option Level :=
  match name with
  | "debug" => some .debug
  | "info" => some .info
  | "warning" => some .warning
  | "error" => some .error
  | "critical" => some .critical
  | "exception" => some .error
  | _ => none

namespace Problem

/-- The level that a problem is reported at, a warning if the name is of no level. -/
def reportLevel (named : List (String × Value)) : Except ProblemError Level :=
  match Value.lookup? "log_level" named with
  | none => .ok .warning
  | some (.text name) => .ok ((Level.ofName? name).getD .warning)
  | some v => .error (.levelNotText v)

/-- The named values without those that say how to report and to answer. -/
def contextOf (named : List (String × Value)) : List (String × Value) :=
  named.filter fun e => e.1 != "log_level" && e.1 != "headers"

/-- A problem and the report of it. A missing detail becomes the phrase of the status. -/
def arise (kind : ProblemKind) (status : Int) (detail : Value) (named : List (String × Value)) :
    Reported ProblemError Problem := do
  let level ← .ofExcept (reportLevel named)
  let context := contextOf named
  Reported.entry ⟨level, .problems, detail.display,
    loggedData (("status_code", .int status) :: context)⟩
  let headers := (Value.lookup? "headers" named).getD .null
  match detail with
  | .null =>
    match statusPhrases.find? (·.1 == status) with
    | some (_, phrase) => return ⟨kind, status, .text phrase, headers, context⟩
    | none => .fail (.unknownStatus status)
  | detail => return ⟨kind, status, detail, headers, context⟩

def notFoundDetail (entity id : Value) : Value :=
  match id with
  | .null => .text (entity.display ++ " not found")
  | id => .text (entity.display ++ " with ID " ++ id.display ++ " not found")

/-- No record of a kind with an id. -/
def notFoundWith (kind : ProblemKind) (entity id : Value) (named : List (String × Value)) :
    Reported ProblemError Problem :=
  arise kind 404 (notFoundDetail entity id) ([("entity", entity), ("entity_id", id)] ++ named)

/-- The problem of a record that is not there, and its report. -/
def notFound (entity : String) (id : Value) : Problem × LogEntry :=
  let context := [("entity", Value.text entity), ("entity_id", id)]
  (⟨.notFound, 404, notFoundDetail (.text entity) id, .null, context⟩,
    ⟨.warning, .problems, (notFoundDetail (.text entity) id).display,
      ("status_code", .int 404) :: context⟩)

/-- The problem of a record that a parent does not own, and its report. -/
def relatedNotFound (entity : String) (id : Value) (relation parent : String) (parentId : Value) :
    Problem × LogEntry :=
  let context := [("entity", Value.text entity), ("entity_id", id), ("relation", .text relation),
    ("parent", .text parent), ("parent_id", parentId)]
  (⟨.relatedNotFound, 404, notFoundDetail (.text entity) id, .null, context⟩,
    ⟨.warning, .problems, (notFoundDetail (.text entity) id).display,
      ("status_code", .int 404) :: context⟩)

/-- The problem of a request that cannot be applied, and its report. -/
def invalid (detail : String) (fields : List String) : Problem × LogEntry :=
  let context := [("fields", Value.list (fields.map Value.text))]
  (⟨.invalid, 400, .text detail, .null, context⟩,
    ⟨.warning, .problems, detail, ("status_code", .int 400) :: context⟩)

/-- The text of a problem. -/
def text (p : Problem) : String := toString p.status ++ ": " ++ p.detail.display

/-- What a problem knows of the records it is about. -/
def attributes (p : Problem) : List (String × Value) :=
  let names := match p.kind with
    | .notFound => ["entity", "entity_id"]
    | .relatedNotFound => ["entity", "entity_id", "relation", "parent_id"]
    | _ => []
  p.context.filter fun e => names.contains e.1

end Problem

end Records
