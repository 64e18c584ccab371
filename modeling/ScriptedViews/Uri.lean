import ScriptedViews.Text.Blank

set_option autoImplicit false

/-! # View URIs

Arithmetic on the URIs that name views. A view refers to others relative to the directory it
stands in; the URI that a loader is asked for is always in normal form, so two spellings of one
place reach one view. -/

namespace ScriptedViews.Uri

/-! ## Parts of a URI -/

/-- The URI with every backslash written as a slash. -/
def slashed (cs : List Char) : List Char :=
  cs.map fun c => if c = '\\' then '/' else c

/-- Everything up to and including the last slash, if there is one. -/
def directory? : List Char → Option (List Char)
  | [] => none
  | c :: cs =>
    match directory? cs with
    | some d => some (c :: d)
    | none => if c = '/' then some [c] else none

/-- The text without one leading slash. -/
def unrooted : List Char → List Char
  | '/' :: cs => cs
  | cs => cs

/-- Whether the mark of a scheme stands somewhere in the URI. -/
def hasScheme : List Char → Bool
  | [] => false
  | ':' :: '/' :: '/' :: _ => true
  | _ :: cs => hasScheme cs

/-! ## Joining -/

/-- The URI `relative`, read in the directory of `base`. A leading slash of `relative` is dropped;
    a `base` without any slash has no directory and leaves `relative` as it is. -/
def resolveChars (base relative : List Char) : List Char :=
  match directory? (slashed base) with
  | some d => d ++ unrooted (slashed relative)
  | none => relative

/-- The URI `relative`, read in the directory of `base`. -/
def resolve (base relative : String) : String :=
  String.ofList (resolveChars base.toList relative.toList)

/-- Whether a URI stands on its own: it is rooted, or has a scheme. -/
def isAbsoluteChars : List Char → Bool
  | '/' :: _ => true
  | '\\' :: _ => true
  | cs => hasScheme cs

/-- Whether a URI stands on its own: it is rooted, or has a scheme. -/
def isAbsolute (uri : String) : Bool :=
  isAbsoluteChars uri.toList

/-- The URI `uri` as written in the document at `base`: resolved there unless it stands on its
    own. -/
def anchor (base uri : String) : String :=
  if isAbsolute uri then String.ofList (slashed uri.toList) else resolve base uri

/-! ## The normal form -/

/-- The segments that are left when empty ones and `.` are dropped and each `..` takes the segment
    before it away, if there is one. The accumulator is in reverse. -/
def collapse : List (List Char) → List (List Char) → List (List Char)
  | kept, [] => kept.reverse
  | kept, segment :: rest =>
    if segment = [] ∨ segment = ['.'] then collapse kept rest
    else if segment = ['.', '.'] then collapse kept.tail rest
    else collapse (segment :: kept) rest

/-- The normal form of a URI: its segments collapsed, a leading slash kept, and a trailing slash
    kept where a segment stands before it. A URI with a scheme is its own normal form. -/
def normalizeChars (cs : List Char) : List Char :=
  if hasScheme cs then cs
  else
    let segments := collapse [] (Text.splitOn '/' cs)
    let rooted := cs.head? = some '/'
    let trailing := cs.getLast? = some '/' ∧ 1 < cs.length
    (if rooted then ['/'] else []) ++ List.intercalate ['/'] segments
      ++ (if trailing ∧ segments ≠ [] then ['/'] else [])

/-- The normal form of a URI. -/
def normalize (uri : String) : String :=
  String.ofList (normalizeChars uri.toList)

end ScriptedViews.Uri
