import Conform.Template

/-!
# The catalogue of messages

The English message of each code, and how overrides and languages come before it.
-/

namespace Conform.Catalog

open Piece

/-- A message about the labelled node. -/
def about (rest : List Piece) : Template :=
  [.text "\"", .slot "label", .text "\" "] ++ rest

def english : List (String × Template) := [
  ("alternatives.all", about [text "does not match all of the required types"]),
  ("alternatives.any", about [text "does not match any of the allowed types"]),
  ("alternatives.match", about [text "does not match any of the allowed types"]),
  ("alternatives.one", about [text "matches more than one allowed type"]),
  ("alternatives.types", about [text "must be one of ", slot "types"]),
  ("any.custom", about [text "failed custom validation because ", slot "error"]),
  ("any.default", about [text "threw an error when running default method"]),
  ("any.failover", about [text "threw an error when running failover method"]),
  ("any.invalid", about [text "contains an invalid value"]),
  ("any.only", about [text "must be one of ", slot "valids"]),
  ("any.ref", about [slot "arg", text " references \"", slot "ref", text "\" which ", slot "reason"]),
  ("any.required", about [text "is required"]),
  ("any.unknown", about [text "is not allowed"]),
  ("array.base", about [text "must be an array"]),
  ("array.includes", about [text "does not match any of the allowed types"]),
  ("array.length", about [text "must contain ", slot "limit", text " items"]),
  ("array.max", about [text "must contain less than or equal to ", slot "limit", text " items"]),
  ("array.min", about [text "must contain at least ", slot "limit", text " items"]),
  ("boolean.base", about [text "must be a boolean"]),
  ("number.base", about [text "must be a number"]),
  ("number.greater", about [text "must be greater than ", slot "limit"]),
  ("number.infinity", about [text "cannot be infinity"]),
  ("number.integer", about [text "must be an integer"]),
  ("number.less", about [text "must be less than ", slot "limit"]),
  ("number.max", about [text "must be less than or equal to ", slot "limit"]),
  ("number.min", about [text "must be greater than or equal to ", slot "limit"]),
  ("number.multiple", about [text "must be a multiple of ", slot "multiple"]),
  ("object.base", about [text "must be of type object"]),
  ("object.unknown", about [text "is not allowed"]),
  ("string.base", about [text "must be a string"]),
  ("string.empty", about [text "is not allowed to be empty"]),
  ("string.length", about [text "length must be ", slot "limit", text " characters long"]),
  ("string.lowercase", about [text "must only contain lowercase characters"]),
  ("string.max",
    about [text "length must be less than or equal to ", slot "limit", text " characters long"]),
  ("string.min", about [text "length must be at least ", slot "limit", text " characters long"]),
  ("string.pattern.base",
    about [text "with value \"", slot "value", text "\" fails to match the required pattern: ",
      slot "regex"]),
  ("string.pattern.name",
    about [text "with value \"", slot "value", text "\" fails to match the ", slot "name",
      text " pattern"]),
  ("string.trim", about [text "must not have leading or trailing whitespace"]),
  ("string.uppercase", about [text "must only contain uppercase characters"])]

/-- The message of a code that the catalogue lacks. -/
def missing : Template := [
  text "Error code \"", slot "code",
  text "\" is not defined, your custom type is missing the correct messages definition"]

def defaultLanguage : String := "english"

/-- The catalogue's message; other languages have none of their own. -/
def standard (code : Value) : Template :=
  match code with
  | .str name => (english.lookup name).getD missing
  | _ => missing

/-- The source of the message for a code: the overrides of the language first, then the override for
all languages, then the catalogue. What cannot be a key has no message. -/
def source (code language : Value) (overrides : Dict) : Value :=
  let language := if language.truthy then language else .str defaultLanguage
  let own := match Datum.find? language overrides with
    | some (.dict messages) => Datum.find? code messages
    | _ => none
  match code.isHashable && language.isHashable, own, Datum.find? code overrides with
  | false, _, _ => .null
  | true, some m, _ => m
  | true, none, some (.str m) => .str m
  | true, none, _ => .str (standard code).source

end Conform.Catalog
