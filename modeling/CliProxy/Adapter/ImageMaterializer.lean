import CliProxy.Adapter.ImageLink
import CliProxy.Adapter.PaperclipRunner
import CliProxy.Lib.Base64
import CliProxy.Lib.Prog

/-! # Images of a request

`materializeImages` of `src/adapter/image-materializer.ts`. Request bodies are not runtime-typed,
so a content part is any JSON value. The disk is a map of directories; `mkdtemp` and `writeFile`
may fail. -/

namespace CliProxy.Adapter.Image

/-! ## The disk -/

abbrev Path := List Char

abbrev Bytes := List UInt8

/-- The files of every directory. -/
abbrev Dirs := Path → Option (List Char → Option Bytes)

structure Disk where
  /-- The new directory, `none` if it cannot be made. -/
  mkdtemp : Dirs → Option Path
  mkdtemp_fresh : ∀ dirs dir, mkdtemp dirs = some dir → dirs dir = none
  /-- How much of a file is written before the disk fails, `none` if it does not fail. -/
  cut : Path → Bytes → Option Nat

inductive Thrown where
  | imageValidationError (message : String)
  /-- A property of `null` is read. -/
  | typeError
  /-- An exception of `mkdtemp` or `writeFile`. -/
  | disk
  deriving DecidableEq

structure World where
  dirs : Dirs
  tmpDir : Option Path
  count : Nat

abbrev Prog := Lib.Prog World Thrown

def makeTmpDir (D : Disk) : Prog Path := do
  let w ← Lib.Prog.get
  match w.tmpDir with
  | some dir => pure dir
  | none =>
    match D.mkdtemp w.dirs with
    | none => Lib.Prog.throw .disk
    | some dir =>
      Lib.Prog.modify fun w =>
        { w with dirs := Function.update w.dirs dir (some fun _ => none), tmpDir := some dir }
      pure dir

def World.put (w : World) (dir : Path) (name : List Char) (bytes : Bytes) : World :=
  let files := (w.dirs dir).map fun files => Function.update files name (some bytes)
  { w with dirs := Function.update w.dirs dir files }

def writeFile (D : Disk) (dir : Path) (name : List Char) (bytes : Bytes) : Prog Unit :=
  match D.cut (dir ++ '/' :: name) bytes with
  | none => Lib.Prog.modify fun w => w.put dir name bytes
  | some n => do
    Lib.Prog.modify fun w => w.put dir name (bytes.take n)
    Lib.Prog.throw .disk

def cleanup : Prog Unit :=
  Lib.Prog.modify fun w =>
    match w.tmpDir with
    | none => w
    | some dir => { w with dirs := Function.update w.dirs dir none, tmpDir := none }

/-! ## Data URLs -/

def MIME_EXT : List (List Char × List Char) :=
  [("image/png".toList, "png".toList), ("image/jpeg".toList, "jpg".toList),
    ("image/webp".toList, "webp".toList), ("image/gif".toList, "gif".toList)]

/-- What an object literal inherits under names without capitals, as text. -/
def inherited : List (List Char × List Char) :=
  [("constructor".toList, "function Object() \x7b [native code] \x7d".toList),
    ("__proto__".toList, "[object Object]".toList)]

/-- `MIME_EXT[mime]` -/
def mimeExt (mime : List Char) : Option (List Char) := (MIME_EXT ++ inherited).lookup mime

def MAX_IMAGE_BYTES : Nat := 20 * 1024 * 1024

/-- `toLowerCase`, which changes no letter outside ASCII to a letter of a name looked up here. -/
def lowerCase (text : List Char) : List Char := text.map Char.toLower

def isDataUrl (url : List Char) : Bool := "data:".toList.isPrefixOf url

def header (url : List Char) : List Char := (url.takeWhile (· != ',')).drop "data:".toList.length

def mediaType (url : List Char) : List Char := lowerCase (((header url).splitOn ';').headD [])

def hasBase64 (url : List Char) : Bool :=
  ((header url).splitOn ';').tail.any fun s => lowerCase s = "base64".toList

def payload (url : List Char) : List Char :=
  ((url.dropWhile (· != ',')).drop 1).filter fun c => !Lib.isTrimmed c

/-- The checks of `materializeDataUrl`: the extension and the bytes of the file. -/
def readDataUrl (url : List Char) : Except Thrown (List Char × Bytes) :=
  if !url.contains ',' then
    .error (.imageValidationError "Malformed data URL: missing comma separator")
  else if !hasBase64 url then
    .error (.imageValidationError "Only base64-encoded data URLs are supported")
  else match mimeExt (mediaType url) with
    | none => .error (.imageValidationError ("Unsupported image type: " ++
        if mediaType url = [] then "unknown" else String.ofList (mediaType url)))
    | some ext =>
      if (payload url).length == 0 || (payload url).length % 4 != 0 ||
          !Lib.Base64.isPadded (payload url) then
        .error (.imageValidationError "Malformed base64 image data")
      else
        let bytes := Lib.Base64.decode (payload url)
        if bytes.length == 0 then
          .error (.imageValidationError "Malformed base64 image data")
        else if bytes.length > MAX_IMAGE_BYTES then
          .error (.imageValidationError ("Image exceeds " ++ toString MAX_IMAGE_BYTES ++
            " byte limit (" ++ toString bytes.length ++ " bytes)"))
        else .ok (ext, bytes)

/-! ## Parts and messages -/

/-- What a part becomes. -/
inductive Prepared where
  | keep
  | link (url : List Char)
  | image (ext : List Char) (bytes : Bytes)

def isImagePart (part : Json) : Bool := Json.isStr (part.get "type") "image_url"

/-- `part.image_url?.url`, if it is a string that is not empty. -/
def imageUrl (part : Json) : Option (List Char) :=
  match (part.get "image_url").bind (·.get "url") with
  | some (.str url) => if url = "" then none else some url.toList
  | _ => none

/-- The checks of a part, which come before anything is written for it. -/
def readPart (P : Lib.Platform) (part : Json) : Except Thrown Prepared :=
  if Json.nullish (some part) then .error .typeError
  else if !isImagePart part then .ok .keep
  else match imageUrl part with
    | none => .error (.imageValidationError "image_url.url must be a non-empty string")
    | some url =>
      if isHttpUrl url then
        if passesThrough P url then .ok (.link url)
        else .error (.imageValidationError
          ("Malformed image URL: " ++ String.ofList (url.take 32)))
      else if isDataUrl url then (readDataUrl url).map fun (ext, bytes) => .image ext bytes
      else .error (.imageValidationError
        ("Unsupported image URL scheme: " ++ String.ofList (url.take 16)))

def textPart (target : List Char) : Json :=
  .obj [("type", .str "text"), ("text", .str (String.ofList (toMarkdownLink target)))]

def fileName (count : Nat) (ext : List Char) : List Char := (toString count).toList ++ '.' :: ext

def storeImage (D : Disk) (ext : List Char) (bytes : Bytes) : Prog Path := do
  let dir ← makeTmpDir D
  let w ← Lib.Prog.get
  Lib.Prog.modify fun w => { w with count := w.count + 1 }
  writeFile D dir (fileName w.count ext) bytes
  pure (dir ++ '/' :: fileName w.count ext)

def materializePart (D : Disk) (P : Lib.Platform) (part : Json) : Prog Json := do
  match ← Lib.Prog.ofExcept (readPart P part) with
  | .keep => pure part
  | .link url => pure (textPart url)
  | .image ext bytes =>
    let path ← storeImage D ext bytes
    pure (textPart path)

structure OpenAIChatMessage where
  role : String
  content : Json
  /-- The properties that the type does not name. -/
  others : List (String × Json)

def forEach {α β : Type} (f : α → Prog β) : List α → Prog (List β)
  | [] => pure []
  | x :: xs => do
    let y ← f x
    let ys ← forEach f xs
    pure (y :: ys)

def materializeMessage (D : Disk) (P : Lib.Platform) (msg : OpenAIChatMessage) :
    Prog OpenAIChatMessage :=
  match msg.content with
  | .arr content => do
    let parts ← forEach (materializePart D P) content
    pure { msg with content := .arr parts }
  | _ => pure msg

def materializeImages (D : Disk) (P : Lib.Platform) (messages : List OpenAIChatMessage) :
    Prog (List OpenAIChatMessage) :=
  (forEach (materializeMessage D P) messages).tryCatch fun err => do
    cleanup
    Lib.Prog.throw err

end CliProxy.Adapter.Image
