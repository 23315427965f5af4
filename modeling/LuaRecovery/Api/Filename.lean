import LuaRecovery.Lib.Utf16
import Mathlib.Data.List.Infix

/-!
# The name of a submitted file

A name that could lead out of its directory is refused; what is left is made of
plain characters, and only some extensions are taken.
-/

set_option autoImplicit false

namespace LuaRecovery.Api
open LuaRecovery.Lib

structure ApiError where
  code : String
  message : String
  status : ℕ
  deriving DecidableEq

def units (text : String) : CodeUnits := utf16 text.toList

def isLetter (u : ℕ) : Bool := (65 ≤ u && u ≤ 90) || (97 ≤ u && u ≤ 122)

def isNumeral (u : ℕ) : Bool := 48 ≤ u && u ≤ 57

/-- The characters that a URI scheme goes on with. -/
def isSchemeUnit (u : ℕ) : Bool := isLetter u || isNumeral u || u = 43 || u = 46 || u = 45

/-- The characters that are kept in a name. -/
def isPlainUnit (u : ℕ) : Bool := isLetter u || isNumeral u || u = 46 || u = 95 || u = 45

def hasUriScheme : CodeUnits → Bool
  | [] => false
  | u::rest => isLetter u && (units "://").isPrefixOf (rest.dropWhile isSchemeUnit)

def hasDrive : CodeUnits → Bool
  | u::58::v::_ => isLetter u && (v = 92 || v = 47)
  | _ => false

/-- The extension of a name without a slash or two dots in a row. -/
def extname (base : CodeUnits) : CodeUnits :=
  let afterDot := base.reverse.takeWhile (fun u => u ≠ 46)
  if afterDot.length+1 < base.length then 46::afterDot.reverse else []

def toLowerUnit (u : ℕ) : ℕ := if 65 ≤ u ∧ u ≤ 90 then u+32 else u

def allowedExtensions : List String := [".lua", ".luau", ".txt"]

def invalidFile (message : String) : ApiError := ⟨"INVALID_FILE", message, 400⟩

/-- The text of code units below 128. -/
def asciiText (text : CodeUnits) : String := String.ofList (text.map Char.ofNat)

/-- `UNSUPPORTED_TYPE` is no code of the server's, so the error gets the default one. -/
def unsupportedExtension (ext : String) : ApiError where
  code := "INTERNAL_ERROR"
  message := "Unsupported file extension \"" ++ ext ++ "\". Allowed extensions: " ++
    ", ".intercalate allowedExtensions
  status := 415

def sanitizeFilename (filename : Option CodeUnits) : Except ApiError String :=
  match filename.filter (fun name => name ≠ []) with
  | none => .ok "recovered.lua"
  | some name =>
    if 255 < name.length then
      .error (invalidFile "Filename exceeds maximum length of 255 characters")
    else if 0 ∈ name then .error (invalidFile "Filename cannot contain NUL bytes")
    else if hasUriScheme name then .error (invalidFile "Filename cannot contain URI schemes")
    else if hasDrive name then
      .error (invalidFile "Filename cannot be an absolute Windows drive path")
    else if name.head? = some 47 ∨ name.head? = some 92 then
      .error (invalidFile "Filename cannot be an absolute path")
    else if units ".." <:+: name ∨ 47 ∈ name ∨ 92 ∈ name then
      .error (invalidFile "Path traversal sequences are strictly forbidden in filename")
    else
      let base := name.map (fun u => if isPlainUnit u then u else 95)
      let ext := asciiText ((extname base).map toLowerUnit)
      if ext ≠ "" ∧ ext ∉ allowedExtensions then .error (unsupportedExtension ext)
      else .ok (asciiText base)

end LuaRecovery.Api
