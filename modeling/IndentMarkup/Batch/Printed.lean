import IndentMarkup.Batch.Basic
import IndentMarkup.Json.Printer

/-! The report of a batch as a JSON value. -/
namespace IndentMarkup

def Warning.toJson : Warning → Json
  | literalFallback line content => .object
    [("kind", .string "literal_fallback"), ("line", .nat line),
      ("content", .string (String.ofList content))]
  | unsupportedControl line keyword => .object
    [("kind", .string "unsupported_control_flow"), ("line", .nat line),
      ("keyword", .string (String.ofList keyword))]
  | tabIndentation line => .object
    [("kind", .string "tab_indentation"), ("line", .nat line)]

def Document.toJson (document : Document) : Json := .object
  [("code", .string (String.ofList document.code)),
    ("diagnostics", .object [("warnings", .array (document.warnings.map Warning.toJson))])]

namespace Batch

def Failure.toJson (failure : Failure) : Json := .object
  [("message", .string failure.message), ("line", .ofOption .nat failure.line)]

def Result.toJson (result : Result) : Json := .object
  [("id", .string result.id), ("result", .ofOption Document.toJson result.document?),
    ("error", .ofOption Failure.toJson result.failure?)]

def Report.toJson (report : Report) (milliseconds : String) : Json := .object
  [("results", .array (report.results.map Result.toJson)),
    ("stats", .object
      [("total", .nat report.total), ("succeeded", .nat report.tally.succeeded),
        ("failed", .nat report.tally.failed), ("processing_time_ms", .number milliseconds)])]

end Batch

end IndentMarkup
