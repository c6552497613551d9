/-
The relative imports of TypeScript (engine/qualname.py).

A module is known by its dotted path alone, and so is the importing one
when `_handle_import` of the adapter asks where a specifier leads.
-/
import SdlcOs.Data.DotSegments
import SdlcOs.Index.Records

namespace SdlcOs.Index

open Data.DotSegments (Segment enter)

/-- `spec[:-len(suffix)] if spec.endswith(suffix) else spec`. -/
def withoutSuffix (spec suffix : String) : String :=
  if endsWith spec suffix then
    .ofList (spec.toList.take (spec.length - suffix.length))
  else spec

/-- A specifier without its suffixes: first `.ts`, then `.tsx`. -/
def withoutSuffixes (spec : String) : String :=
  withoutSuffix (withoutSuffix spec ".ts") ".tsx"

/-- The body of the loop over the segments. -/
def enterSegment (baseParts : List Segment) (segment : Segment) :
    List Segment :=
  if segment = [] then baseParts else enter baseParts segment

/-- `resolve_relative_ts_import`. -/
def resolveRelativeTsImport (currentModuleDotted spec : String) :
    Option String :=
  if spec.toList.head? = some '.' then
    let currentParts := currentModuleDotted.toList.splitOn '.'
    -- the directory of a module is all of it but the last segment
    let baseParts := currentParts.dropLast
    let segments := (withoutSuffixes spec).toList.splitOn '/'
    some (.ofList (['.'].intercalate (segments.foldl enterSegment baseParts)))
  else none

end SdlcOs.Index
