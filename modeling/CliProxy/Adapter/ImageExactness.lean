import CliProxy.Adapter.ImageMaterializer

/-! # Images are stored exactly or not at all

The invariant `Written` of the batch says which files were written so far. One rule about loops
carries it from a part to a message and from a message to the batch; what a part becomes is the
relation `Replaced`, once for the checks of the code and once for canonical images. -/

namespace CliProxy.Adapter.Image

open Lib (Prog.Sat)

/-! ## Files -/

structure File where
  dir : Path
  name : List Char
  bytes : Bytes

def File.path (f : File) : Path := f.dir ++ '/' :: f.name

/-- The files are in new directories, each under a path of its own, and nothing else changed. -/
structure Stored (dirs dirs' : Dirs) (files : List File) : Prop where
  distinct : (files.map File.path).Nodup
  fresh : ∀ f ∈ files, dirs f.dir = none
  holds : ∀ f ∈ files, ∃ m, dirs' f.dir = some m ∧ m f.name = some f.bytes
  rest : ∀ dir, (∀ f ∈ files, f.dir ≠ dir) → dirs' dir = dirs dir

/-- At most a new temporary directory was added. -/
def Dirty (dirs : Dirs) (w : World) : Prop :=
  match w.tmpDir with
  | none => w.dirs = dirs
  | some dir => dirs dir = none ∧ ∃ m, w.dirs = Function.update dirs dir (some m)

/-- The files were written so far, in this order. -/
structure Written (dirs : Dirs) (files : List File) (w : World) : Prop where
  dirty : Dirty dirs w
  count : w.count = files.length
  tmpDir : ∀ f ∈ files, w.tmpDir = some f.dir
  opened : files = [] → w.tmpDir = none
  names : ∀ i (h : i < files.length), ∃ ext, files[i].name = fileName i ext
  holds : ∀ f ∈ files, ∃ m, w.dirs f.dir = some m ∧ m f.name = some f.bytes

theorem takeWhile_fileName (n : Nat) (ext : List Char) :
    (fileName n ext).takeWhile (· != '.') = Nat.toDigits 10 n := by
  have hdigits : ∀ c ∈ Nat.toDigits 10 n, (c != '.') = true := by
    intro c hc
    have hdigit := Nat.isDigit_of_mem_toDigits (by omega) (by omega) hc
    rw [bne_iff_ne]
    rintro rfl
    cases hdigit
  rw [fileName, Nat.toString_eq_ofList_toDigits, String.toList_ofList,
    List.takeWhile_append_of_pos hdigits]
  simp

theorem fileName_inj {i j : Nat} {ext ext' : List Char} (h : fileName i ext = fileName j ext') :
    i = j := by
  have hdigits := congrArg (List.takeWhile (· != '.')) h
  rw [takeWhile_fileName, takeWhile_fileName] at hdigits
  calc i = Nat.ofDigitChars 10 (Nat.toDigits 10 i) 0 := Nat.ofDigitChars_ten_toDigits.symm
    _ = Nat.ofDigitChars 10 (Nat.toDigits 10 j) 0 := by rw [hdigits]
    _ = j := Nat.ofDigitChars_ten_toDigits

theorem path_inj {dir name name' : List Char} (h : dir ++ '/' :: name = dir ++ '/' :: name') :
    name = name' :=
  (List.cons.inj (List.append_cancel_left h)).2

theorem Written.stored {dirs : Dirs} {files : List File} {w : World} (h : Written dirs files w) :
    Stored dirs w.dirs files where
  distinct := by
    rw [List.Nodup, List.pairwise_map, List.pairwise_iff_getElem]
    intro i j hi hj hlt heq
    have hdir : files[i].dir = files[j].dir := by
      have hi := h.tmpDir files[i] (List.getElem_mem hi)
      rw [h.tmpDir files[j] (List.getElem_mem hj)] at hi
      exact (Option.some.inj hi).symm
    rw [File.path, File.path, hdir] at heq
    obtain ⟨ext, hext⟩ := h.names i hi
    obtain ⟨ext', hext'⟩ := h.names j hj
    exact absurd (fileName_inj (hext.symm.trans ((path_inj heq).trans hext'))) (Nat.ne_of_lt hlt)
  fresh f hf := by
    have hdirty := h.dirty
    rw [Dirty, h.tmpDir f hf] at hdirty
    exact hdirty.1
  holds := h.holds
  rest dir hdir := by
    have hdirty := h.dirty
    cases files with
    | nil =>
      rw [Dirty, h.opened rfl] at hdirty
      rw [hdirty]
    | cons f files =>
      rw [Dirty, h.tmpDir f (.head _)] at hdirty
      obtain ⟨-, m, hm⟩ := hdirty
      rw [hm, Function.update_of_ne (hdir f (.head _)).symm]

/-! ## Replacements -/

/-- What a part becomes and the files that are written for it; a file stores a data URL. -/
inductive Replaced (stores : List Char → File → Prop) : Json → Json → List File → Prop where
  | keep {part : Json} (h : isImagePart part = false) : Replaced stores part part []
  | link {part : Json} {url : List Char} (himage : isImagePart part = true)
    (hurl : imageUrl part = some url) (hhttp : isHttpUrl url = true) :
    Replaced stores part (textPart url) []
  | file {part : Json} {url : List Char} {f : File} (himage : isImagePart part = true)
    (hurl : imageUrl part = some url) (hdata : isDataUrl url = true) (hstores : stores url f) :
    Replaced stores part (textPart f.path) [f]

/-- Every element is replaced in place, and the files are written in order. -/
inductive Each {α β : Type} (R : α → β → List File → Prop) :
    List α → List β → List File → Prop where
  | nil : Each R [] [] []
  | cons {x : α} {y : β} {xs : List α} {ys : List β} {more files : List File} (h : R x y more)
    (hs : Each R xs ys files) : Each R (x :: xs) (y :: ys) (more ++ files)

/-- The parts of a message are replaced, and nothing else of it changes. -/
inductive ReplacedMessage (R : Json → Json → List File → Prop) :
    OpenAIChatMessage → OpenAIChatMessage → List File → Prop where
  | keep {msg : OpenAIChatMessage} (h : ∀ content, msg.content ≠ .arr content) :
    ReplacedMessage R msg msg []
  | parts {msg : OpenAIChatMessage} {content parts : List Json} {files : List File}
    (h : msg.content = .arr content) (hparts : Each R content parts files) :
    ReplacedMessage R msg { msg with content := .arr parts } files

def partsOf (msg : OpenAIChatMessage) : List Json :=
  match msg.content with
  | .arr content => content
  | _ => []

/-- The extension of a supported image type. -/
def supportedExt (mime : List Char) : Option (List Char) := MIME_EXT.lookup mime

/-- The file holds the image of the data URL, and its bytes encode to the payload. -/
def StoresImage (url : List Char) (f : File) : Prop :=
  (∃ n ext, supportedExt (mediaType url) = some ext ∧ f.name = fileName n ext) ∧
    f.bytes = Lib.Base64.decode (payload url) ∧ Lib.Base64.encode f.bytes = payload url

/-- A data URL of a supported, canonical and small enough image. -/
def ValidDataUrl (url : List Char) : Prop :=
  ',' ∈ url ∧ hasBase64 url = true ∧ (supportedExt (mediaType url)).isSome ∧
    ∃ bytes, bytes ≠ [] ∧ bytes.length ≤ MAX_IMAGE_BYTES ∧ Lib.Base64.encode bytes = payload url

def ValidPart (P : Lib.Platform) (part : Json) : Prop :=
  part ≠ .null ∧ (isImagePart part = true → ∃ url, imageUrl part = some url ∧
    (passesThrough P url = true ∨ isDataUrl url = true ∧ ValidDataUrl url))

/-- `mkdtemp` fails with these directories, or some `writeFile` does. -/
def Disk.Fails (D : Disk) (dirs : Dirs) : Prop :=
  D.mkdtemp dirs = none ∨ ∃ path bytes, D.cut path bytes ≠ none

/-- Whatever the disk does: if the batch succeeds, all parts are valid, every part is replaced in
place, and the images are stored; if it throws, the disk is as before, and an invalid part is
reported as such unless the disk failed. -/
def ExactOrNothing (P : Lib.Platform) (messages : List OpenAIChatMessage) : Prop :=
  ∀ (D : Disk) (dirs : Dirs), match materializeImages D P messages ⟨dirs, none, 0⟩ with
  | (.ok out, w) => (∀ msg ∈ messages, ∀ part ∈ partsOf msg, ValidPart P part) ∧
    ∃ files, Each (ReplacedMessage (Replaced StoresImage)) messages out files ∧
      Stored dirs w.dirs files
  | (.error e, w) => w.dirs = dirs ∧
    ((∃ msg ∈ messages, ∃ part ∈ partsOf msg, ¬ValidPart P part) →
      e = .disk ∧ D.Fails dirs ∨ ∃ message, e = .imageValidationError message)
  | (.crash, _) => False

/-! ## What is written for a part -/

/-- The temporary directory is there for the next file. -/
structure Opened (dirs : Dirs) (files : List File) (dir : Path) (w : World) : Prop where
  dirty : Dirty dirs w
  count : w.count = files.length
  tmpDir : w.tmpDir = some dir
  inside : ∀ f ∈ files, f.dir = dir
  names : ∀ i (h : i < files.length), ∃ ext, files[i].name = fileName i ext
  holds : ∀ f ∈ files, ∃ m, w.dirs f.dir = some m ∧ m f.name = some f.bytes

section
variable {dirs : Dirs} {files : List File} {D : Disk} {C : World → Prop}

theorem makeTmpDir_sat : Prog.Sat (Written dirs files) (makeTmpDir D) (Opened dirs files)
    (fun e w => Dirty dirs w ∧ e = .disk ∧ D.Fails dirs) C := by
  apply Prog.Sat.get_bind
  intro w hw
  split
  next dir hdir =>
    apply Prog.Sat.pure
    rintro _ rfl
    have hinside : ∀ f ∈ files, f.dir = dir := fun f hf =>
      Option.some.inj ((hw.tmpDir f hf).symm.trans hdir)
    exact ⟨hw.dirty, hw.count, hdir, hinside, hw.names, hw.holds⟩
  next hnone =>
    have hfiles : files = [] := by
      cases files with
      | nil => rfl
      | cons f files => exact absurd (hnone.symm.trans (hw.tmpDir f (.head _))) (by simp)
    subst hfiles
    have hdirs : w.dirs = dirs := by
      have hdirty := hw.dirty
      rwa [Dirty, hnone] at hdirty
    split
    next hdir =>
      apply Prog.Sat.throw
      rintro _ rfl
      exact ⟨hw.dirty, rfl, .inl (hdirs ▸ hdir)⟩
    next dir hdir =>
      have hfresh : dirs dir = none := hdirs ▸ D.mkdtemp_fresh _ _ hdir
      refine Prog.Sat.bind (Prog.Sat.modify (Q := fun _ => Opened dirs [] dir) ?_)
        fun _ => Prog.Sat.pure fun _ h => h
      rintro _ rfl
      exact ⟨⟨hfresh, _, by rw [hdirs]⟩, hw.count, rfl, List.forall_mem_nil _, hw.names,
        List.forall_mem_nil _⟩

theorem Opened.dirty_put {dir name : List Char} {w : World} (h : Opened dirs files dir w)
    (n : Nat) (bytes : Bytes) :
    Dirty dirs ({ w with count := n }.put dir name bytes) := by
  have hdirty := h.dirty
  rw [Dirty, h.tmpDir] at hdirty
  obtain ⟨hfresh, m, hm⟩ := hdirty
  simp only [Dirty, World.put, h.tmpDir, hm, Function.update_self, Option.map_some,
    Function.update_idem]
  exact ⟨hfresh, _, rfl⟩

/-- A file under a new name is added. -/
theorem Opened.written {dir ext : List Char} {w : World} (h : Opened dirs files dir w)
    (bytes : Bytes) : Written dirs (files ++ [⟨dir, fileName w.count ext, bytes⟩])
      ({ w with count := w.count + 1 }.put dir (fileName w.count ext) bytes) := by
  have hdirty := h.dirty
  rw [Dirty, h.tmpDir] at hdirty
  obtain ⟨hfresh, m, hm⟩ := hdirty
  have hput : ({ w with count := w.count + 1 }.put dir (fileName w.count ext) bytes).dirs dir =
      some (Function.update m (fileName w.count ext) (some bytes)) := by
    simp [World.put, hm]
  have hnew : ∀ f ∈ files, f.name ≠ fileName w.count ext := by
    intro f hf heq
    obtain ⟨i, hi, rfl⟩ := List.mem_iff_getElem.mp hf
    obtain ⟨ext', hext'⟩ := h.names i hi
    have hcount := fileName_inj (hext'.symm.trans heq)
    rw [h.count] at hcount
    omega
  refine ⟨h.dirty_put _ bytes, ?_, ?_, ?_, ?_, ?_⟩
  · simp [World.put, h.count]
  · intro f hf
    rcases List.mem_append.mp hf with hf | hf
    · rw [h.inside f hf]
      exact h.tmpDir
    · cases List.mem_singleton.mp hf
      exact h.tmpDir
  · exact fun heq => absurd (List.append_eq_nil_iff.mp heq).2 (List.cons_ne_nil _ _)
  · intro i hi
    rcases Nat.lt_or_ge i files.length with hlt | hge
    · rw [List.getElem_append_left hlt]
      exact h.names i hlt
    · have hi' : i = files.length := by
        rw [List.length_append, List.length_singleton] at hi
        omega
      subst hi'
      exact ⟨ext, by simp [h.count]⟩
  · intro f hf
    rcases List.mem_append.mp hf with hf | hf
    · obtain ⟨m', hm', hbytes⟩ := h.holds f hf
      rw [h.inside f hf, hm, Function.update_self] at hm'
      rw [h.inside f hf]
      refine ⟨_, hput, ?_⟩
      rw [Function.update_of_ne (hnew f hf), Option.some.inj hm', hbytes]
    · cases List.mem_singleton.mp hf
      exact ⟨_, hput, Function.update_self ..⟩

theorem storeImage_sat (ext : List Char) (bytes : Bytes) :
    Prog.Sat (Written dirs files) (storeImage D ext bytes)
      (fun path w => ∃ f : File, path = f.path ∧ (∃ n, f.name = fileName n ext) ∧
        f.bytes = bytes ∧ Written dirs (files ++ [f]) w)
      (fun e w => Dirty dirs w ∧ e = .disk ∧ D.Fails dirs) C := by
  refine Prog.Sat.bind makeTmpDir_sat fun dir => Prog.Sat.get_bind fun w hw => ?_
  refine Prog.Sat.bind (Prog.Sat.modify (Q := fun _ w' => w' = { w with count := w.count + 1 })
    (by rintro _ rfl; rfl)) fun _ => ?_
  refine Prog.Sat.bind (Q := fun _ => Written dirs (files ++ [⟨dir, fileName w.count ext, bytes⟩]))
    ?_ fun _ => Prog.Sat.pure fun w' hw' => ⟨_, rfl, ⟨w.count, rfl⟩, rfl, hw'⟩
  unfold writeFile
  split
  next =>
    apply Prog.Sat.modify
    rintro _ rfl
    exact hw.written bytes
  next n hcut =>
    have hfails : D.Fails dirs := .inr ⟨_, _, hcut ▸ Option.some_ne_none n⟩
    refine Prog.Sat.bind (Prog.Sat.modify (Q := fun _ => Dirty dirs) ?_)
      fun _ => Prog.Sat.throw fun w' hw' => ⟨hw', rfl, hfails⟩
    rintro _ rfl
    exact hw.dirty_put _ _

end

/-! ## The batch -/

/-- The exception of the checks of a part. -/
def refusal (P : Lib.Platform) (part : Json) : Option Thrown :=
  match readPart P part with
  | .error e => some e
  | .ok _ => none

def refusalOf (P : Lib.Platform) (msg : OpenAIChatMessage) : Option Thrown :=
  (partsOf msg).findSome? (refusal P)

/-- The file holds what the checks of the data URL gave. -/
def Keeps (url : List Char) (f : File) : Prop :=
  ∃ n ext, readDataUrl url = .ok (ext, f.bytes) ∧ f.name = fileName n ext

section
variable {dirs : Dirs} {files : List File} {D : Disk} {P : Lib.Platform} {C : World → Prop}

theorem readPart_ok {part : Json} {prepared : Prepared} (h : readPart P part = .ok prepared) :
    isImagePart part = false ∧ prepared = .keep ∨
      isImagePart part = true ∧ ∃ url, imageUrl part = some url ∧
        (passesThrough P url = true ∧ prepared = .link url ∨
          isDataUrl url = true ∧ ∃ ext bytes, readDataUrl url = .ok (ext, bytes) ∧
            prepared = .image ext bytes) := by
  unfold readPart at h
  split at h
  next => cases h
  next =>
    cases himage : isImagePart part with
    | false =>
      rw [himage, Bool.not_false, if_pos rfl] at h
      exact .inl ⟨rfl, (Except.ok.inj h).symm⟩
    | true =>
      rw [himage, if_neg (by simp)] at h
      refine .inr ⟨rfl, ?_⟩
      cases hurl : imageUrl part with
      | none =>
        rw [hurl] at h
        cases h
      | some url =>
        rw [hurl] at h
        refine ⟨url, rfl, ?_⟩
        dsimp only at h
        split at h
        next =>
          split at h
          next hpasses => exact .inl ⟨hpasses, (Except.ok.inj h).symm⟩
          next => cases h
        next =>
          split at h
          next hdata =>
            cases hread : readDataUrl url with
            | error e =>
              rw [hread] at h
              cases h
            | ok image =>
              rw [hread] at h
              exact .inr ⟨hdata, image.1, image.2, rfl, (Except.ok.inj h).symm⟩
          next => cases h

theorem materializePart_sat (part : Json) :
    Prog.Sat (Written dirs files) (materializePart D P part)
      (fun part' w => refusal P part = none ∧
        ∃ more, Replaced Keeps part part' more ∧ Written dirs (files ++ more) w)
      (fun e w => Dirty dirs w ∧ (e = .disk ∧ D.Fails dirs ∨ refusal P part = some e)) C := by
  unfold materializePart
  refine Prog.Sat.bind (Q := fun prepared w => readPart P part = .ok prepared ∧
    Written dirs files w) (Prog.Sat.ofExcept (fun prepared h w hw => ⟨h, hw⟩) fun e h w hw =>
      ⟨hw.dirty, .inr (by rw [refusal, h])⟩) fun prepared => Prog.Sat.assume fun hread => ?_
  have hnone : refusal P part = none := by rw [refusal, hread]
  rcases readPart_ok hread with ⟨himage, rfl⟩ |
    ⟨himage, url, hurl, ⟨hpasses, rfl⟩ | ⟨hdata, ext, bytes, hdecode, rfl⟩⟩
  · apply Prog.Sat.pure
    exact fun w hw => ⟨hnone, [], .keep himage, by rwa [List.append_nil]⟩
  · apply Prog.Sat.pure
    have hhttp : isHttpUrl url = true := (Bool.and_eq_true _ _ ▸ hpasses).1
    exact fun w hw => ⟨hnone, [], .link himage hurl hhttp, by rwa [List.append_nil]⟩
  · refine Prog.Sat.bind ((storeImage_sat ext bytes).conseq (fun _ h => h) (fun _ _ h => h)
      (fun e w h => ⟨h.1, .inl h.2⟩) fun _ h => h) fun path => Prog.Sat.pure ?_
    rintro w ⟨f, rfl, ⟨n, hname⟩, rfl, hw⟩
    exact ⟨hnone, [f], .file himage hurl hdata ⟨n, ext, hdecode, hname⟩, hw⟩

/-- What a step does to one element, a loop does to a list up to the first exception. -/
theorem forEach_sat {α β : Type} {f : α → Prog β} {R : α → β → List File → Prop}
    {thrown : α → Option Thrown}
    (h : ∀ x files, Prog.Sat (Written dirs files) (f x)
      (fun y w => thrown x = none ∧ ∃ more, R x y more ∧ Written dirs (files ++ more) w)
      (fun e w => Dirty dirs w ∧ (e = .disk ∧ D.Fails dirs ∨ thrown x = some e)) C) (xs : List α) :
    ∀ files, Prog.Sat (Written dirs files) (forEach f xs)
      (fun ys w => xs.findSome? thrown = none ∧
        ∃ more, Each R xs ys more ∧ Written dirs (files ++ more) w)
      (fun e w => Dirty dirs w ∧ (e = .disk ∧ D.Fails dirs ∨ xs.findSome? thrown = some e)) C := by
  induction xs with
  | nil =>
    intro files
    apply Prog.Sat.pure
    exact fun w hw => ⟨rfl, [], .nil, by rwa [List.append_nil]⟩
  | cons x xs ih =>
    intro files
    refine Prog.Sat.bind ((h x files).conseq (fun _ h => h) (fun _ _ h => h)
      (fun e w h => ⟨h.1, h.2.imp_right fun hx => by rw [List.findSome?_cons, hx]⟩) fun _ h => h)
      fun y => Prog.Sat.assume fun hx => ?_
    rintro w ⟨more, hy, hw⟩
    have hxs : (x :: xs).findSome? thrown = xs.findSome? thrown := by
      rw [List.findSome?_cons, hx]
    have hloop := Prog.Sat.bind (R := fun ys w => (x :: xs).findSome? thrown = none ∧
      ∃ more, Each R (x :: xs) ys more ∧ Written dirs (files ++ more) w) (ih (files ++ more))
      fun ys => Prog.Sat.pure (a := y :: ys) ?_
    · rw [hxs]
      rw [hxs] at hloop
      exact hloop w hw
    · rintro w' ⟨hnone, more', hys, hw'⟩
      exact ⟨hxs.trans hnone, more ++ more', .cons hy hys, by rwa [← List.append_assoc]⟩

theorem materializeMessage_sat (msg : OpenAIChatMessage) :
    Prog.Sat (Written dirs files) (materializeMessage D P msg)
      (fun msg' w => refusalOf P msg = none ∧ ∃ more,
        ReplacedMessage (Replaced Keeps) msg msg' more ∧ Written dirs (files ++ more) w)
      (fun e w => Dirty dirs w ∧ (e = .disk ∧ D.Fails dirs ∨ refusalOf P msg = some e)) C := by
  unfold materializeMessage refusalOf partsOf
  cases hcontent : msg.content with
  | arr content =>
    refine Prog.Sat.bind (forEach_sat (fun part files => materializePart_sat part) content files)
      fun parts => Prog.Sat.pure ?_
    rintro w ⟨hnone, more, hparts, hw⟩
    exact ⟨hnone, more, .parts hcontent hparts, hw⟩
  | _ =>
    apply Prog.Sat.pure
    exact fun w hw => ⟨rfl, [], .keep (by simp [hcontent]), by rwa [List.append_nil]⟩

theorem cleanup_sat {E : Thrown → World → Prop} (h : Prop) :
    Prog.Sat (fun w => Dirty dirs w ∧ h) cleanup (fun _ w => w.dirs = dirs ∧ h) E C := by
  apply Prog.Sat.modify
  rintro w ⟨hdirty, h⟩
  refine ⟨?_, h⟩
  rw [Dirty] at hdirty
  cases htmpDir : w.tmpDir with
  | none =>
    rw [htmpDir] at hdirty
    exact hdirty
  | some dir =>
    rw [htmpDir] at hdirty
    obtain ⟨hfresh, m, hm⟩ := hdirty
    show Function.update w.dirs dir none = dirs
    rw [hm, Function.update_idem, ← hfresh, Function.update_eq_self]

/-- The first exception of the checks decides: without one the images are stored. -/
theorem materializeImages_sat (messages : List OpenAIChatMessage) :
    Prog.Sat (fun w => w = ⟨dirs, none, 0⟩) (materializeImages D P messages)
      (fun out w => messages.findSome? (refusalOf P) = none ∧ ∃ files,
        Each (ReplacedMessage (Replaced Keeps)) messages out files ∧ Written dirs files w)
      (fun e w => w.dirs = dirs ∧
        (e = .disk ∧ D.Fails dirs ∨ messages.findSome? (refusalOf P) = some e)) C := by
  refine Prog.Sat.tryCatch ((forEach_sat (fun msg files => materializeMessage_sat msg) messages
    []).strengthen ?_) fun e => Prog.Sat.bind (cleanup_sat _) fun _ =>
      Prog.Sat.throw fun w hw => hw
  rintro _ rfl
  exact ⟨rfl, rfl, List.forall_mem_nil _, fun _ => rfl, fun i hi => absurd hi (Nat.not_lt_zero i),
    List.forall_mem_nil _⟩

end

/-! ## What the checks miss -/

/-- The media type is one that `MIME_EXT` inherits, or the payload has loose bits. -/
def lenient (part : Json) : Bool :=
  isImagePart part && match imageUrl part with
    | some url => isDataUrl url &&
        ((inherited.lookup (mediaType url)).isSome || Lib.Base64.looseBits (payload url))
    | none => false

theorem readDataUrl_ok {url ext : List Char} {bytes : Bytes}
    (h : readDataUrl url = .ok (ext, bytes)) :
    ',' ∈ url ∧ hasBase64 url = true ∧ mimeExt (mediaType url) = some ext ∧
      Lib.Base64.isBase64 (payload url) = true ∧ bytes = Lib.Base64.decode (payload url) ∧
      bytes ≠ [] ∧ bytes.length ≤ MAX_IMAGE_BYTES := by
  unfold readDataUrl at h
  split at h
  next => cases h
  next hcomma =>
    split at h
    next => cases h
    next hbase64 =>
      split at h
      next => cases h
      next hmime =>
        split at h
        next => cases h
        next hpayload =>
          dsimp only at h
          split at h
          next => cases h
          next hempty =>
            split at h
            next => cases h
            next hsize =>
              obtain ⟨rfl, rfl⟩ := Prod.mk.inj (Except.ok.inj h)
              simp only [Bool.not_eq_true, Bool.or_eq_false_iff, Bool.not_eq_false',
                bne_eq_false_iff_eq] at hpayload
              refine ⟨by simpa using hcomma, by simpa using hbase64, hmime, ?_, rfl,
                by simpa using hempty, Nat.not_lt.mp hsize⟩
              rw [Lib.Base64.isBase64_eq, hpayload.1.2, hpayload.2]
              rfl

theorem readDataUrl_error {url : List Char} {e : Thrown} (h : readDataUrl url = .error e) :
    ∃ message, e = .imageValidationError message := by
  unfold readDataUrl at h
  dsimp only at h
  split at h
  next => exact ⟨_, (Except.error.inj h).symm⟩
  next =>
    split at h
    next => exact ⟨_, (Except.error.inj h).symm⟩
    next =>
      split at h
      next => exact ⟨_, (Except.error.inj h).symm⟩
      next =>
        split at h
        next => exact ⟨_, (Except.error.inj h).symm⟩
        next =>
          split at h
          next => exact ⟨_, (Except.error.inj h).symm⟩
          next =>
            split at h
            next => exact ⟨_, (Except.error.inj h).symm⟩
            next => cases h

theorem inherited_lookup : ∀ entry ∈ MIME_EXT, inherited.lookup entry.1 = none := by
  decide

/-- A media type that is accepted is supported or inherited, and not both. -/
theorem mimeExt_cases {mime ext : List Char} (h : mimeExt mime = some ext) :
    supportedExt mime = some ext ∧ inherited.lookup mime = none ∨
      supportedExt mime = none ∧ (inherited.lookup mime).isSome := by
  rw [mimeExt, List.lookup_append] at h
  cases hmime : supportedExt mime with
  | none =>
    rw [supportedExt] at hmime
    rw [hmime, Option.none_or] at h
    exact .inr ⟨rfl, by rw [h]; rfl⟩
  | some ext' =>
    obtain ⟨before, after, hentry, -⟩ := List.lookup_eq_some_iff.mp hmime
    have hmem : (mime, ext') ∈ MIME_EXT := hentry ▸ List.mem_append_right _ (.head _)
    rw [supportedExt] at hmime
    rw [hmime, Option.some_or] at h
    exact .inl ⟨h, inherited_lookup _ hmem⟩

theorem encode_payload {url ext : List Char} {bytes : Bytes}
    (h : readDataUrl url = .ok (ext, bytes)) :
    Lib.Base64.encode bytes = payload url ↔ Lib.Base64.looseBits (payload url) = false := by
  obtain ⟨-, -, -, hbase64, rfl, -⟩ := readDataUrl_ok h
  exact Lib.Base64.encode_decode_iff hbase64

theorem validDataUrl_iff {url ext : List Char} {bytes : Bytes}
    (h : readDataUrl url = .ok (ext, bytes)) :
    ValidDataUrl url ↔ (inherited.lookup (mediaType url)).isSome = false ∧
      Lib.Base64.looseBits (payload url) = false := by
  obtain ⟨hcomma, hhas, hmime, hbase64, hbytes, hempty, hsize⟩ := readDataUrl_ok h
  constructor
  · rintro ⟨-, -, hsupported, bytes', -, -, hencode⟩
    constructor
    · rcases mimeExt_cases hmime with ⟨-, hnone⟩ | ⟨hnone, -⟩
      · rw [hnone]
        rfl
      · rw [hnone] at hsupported
        cases hsupported
    · rw [← Lib.Base64.encode_decode_iff hbase64, ← Lib.Base64.exists_encode_eq]
      exact ⟨bytes', hencode⟩
  · rintro ⟨hnone, hloose⟩
    refine ⟨hcomma, hhas, ?_, bytes, hempty, hsize, (encode_payload h).mpr hloose⟩
    rcases mimeExt_cases hmime with ⟨hsome, -⟩ | ⟨-, hsome⟩
    · rw [hsome]
      rfl
    · rw [hnone] at hsome
      cases hsome

theorem isHttpUrl_not_data {url : List Char} (h : isHttpUrl url = true) :
    isDataUrl url = false := by
  rw [isHttpUrl, Bool.or_eq_true, List.isPrefixOf_iff_prefix, List.isPrefixOf_iff_prefix] at h
  rcases h with ⟨rest, rfl⟩ | ⟨rest, rfl⟩ <;> rfl

section
variable {P : Lib.Platform} {part : Json}

theorem refusal_eq_none : refusal P part = none ↔ ∃ prepared, readPart P part = .ok prepared := by
  rw [refusal]
  cases readPart P part <;> simp

theorem readPart_error {e : Thrown} (h : readPart P part = .error e) :
    part = .null ∨ ∃ message, e = .imageValidationError message := by
  unfold readPart at h
  split at h
  next hnullish =>
    left
    cases part <;> simp [Json.nullish] at hnullish ⊢
  next =>
    right
    split at h
    next => cases h
    next =>
      split at h
      next => exact ⟨_, (Except.error.inj h).symm⟩
      next url _ =>
        split at h
        next =>
          split at h
          next => cases h
          next => exact ⟨_, (Except.error.inj h).symm⟩
        next =>
          split at h
          next =>
            cases hread : readDataUrl url with
            | ok image =>
              rw [hread] at h
              cases h
            | error e' =>
              rw [hread] at h
              cases Except.error.inj h
              exact readDataUrl_error hread
          next => exact ⟨_, (Except.error.inj h).symm⟩

theorem refusal_typeError : refusal P part = some .typeError ↔ part = .null := by
  constructor
  · intro h
    rw [refusal] at h
    split at h
    next e hread =>
      rcases readPart_error hread with hnull | ⟨message, rfl⟩
      · exact hnull
      · cases h
    next => cases h
  · rintro rfl
    rfl

theorem validPart_iff (h : refusal P part = none) : ValidPart P part ↔ lenient part = false := by
  have hnull : part ≠ .null := by
    intro hpart
    rw [refusal_typeError.mpr hpart] at h
    cases h
  obtain ⟨prepared, hread⟩ := refusal_eq_none.mp h
  rcases readPart_ok hread with ⟨himage, -⟩ |
    ⟨himage, url, hurl, ⟨hpasses, -⟩ | ⟨hdata, ext, bytes, hdecode, -⟩⟩
  · refine iff_of_true ⟨hnull, fun h => ?_⟩ (by rw [lenient, himage, Bool.false_and])
    rw [himage] at h
    cases h
  · have hhttp : isHttpUrl url = true := (Bool.and_eq_true _ _ ▸ hpasses).1
    refine iff_of_true ⟨hnull, fun _ => ⟨url, hurl, .inl hpasses⟩⟩ ?_
    simp [lenient, hurl, isHttpUrl_not_data hhttp]
  · have hpasses : passesThrough P url = false := by
      rw [Bool.eq_false_iff]
      intro hpasses
      have hhttp : isHttpUrl url = true := (Bool.and_eq_true _ _ ▸ hpasses).1
      rw [isHttpUrl_not_data hhttp] at hdata
      cases hdata
    simp only [ValidPart, lenient, himage, hurl, hdata, Bool.true_and, Bool.or_eq_false_iff,
      ← validDataUrl_iff hdecode]
    simp [hnull, hdata, hpasses]

theorem Replaced.stores {part' : Json} {files : List File} (h : Replaced Keeps part part' files)
    (hlenient : lenient part = false) : Replaced StoresImage part part' files := by
  cases h with
  | keep himage => exact .keep himage
  | link himage hurl hhttp => exact .link himage hurl hhttp
  | @file url f himage hurl hdata hstores =>
    obtain ⟨n, ext, hread, hname⟩ := hstores
    have hvalid : (inherited.lookup (mediaType url)).isSome = false ∧
        Lib.Base64.looseBits (payload url) = false := by
      simpa [lenient, himage, hurl, hdata] using hlenient
    obtain ⟨-, -, hmime, -, hbytes, -⟩ := readDataUrl_ok hread
    refine .file himage hurl hdata
      ⟨⟨n, ext, ?_, hname⟩, hbytes, (encode_payload hread).mpr hvalid.2⟩
    rcases mimeExt_cases hmime with ⟨hsome, -⟩ | ⟨-, hsome⟩
    · exact hsome
    · rw [hvalid.1] at hsome
      cases hsome

end

theorem Each.imp {α β : Type} {R R' : α → β → List File → Prop} {xs : List α} {ys : List β}
    {files : List File} (h : Each R xs ys files)
    (himp : ∀ x ∈ xs, ∀ y more, R x y more → R' x y more) : Each R' xs ys files := by
  induction h with
  | nil => exact .nil
  | cons h _ ih =>
    exact .cons (himp _ (.head _) _ _ h) (ih fun x hx => himp x (.tail _ hx))

/-! ## When the batch is exact or leaves nothing -/

/-- The first part that a check refuses, if any, is not `null`; if none is refused, no part is
accepted leniently. -/
def neverLenient (P : Lib.Platform) (messages : List OpenAIChatMessage) : Bool :=
  match messages.findSome? (refusalOf P) with
  | some e => e != .typeError
  | none => messages.all fun msg => (partsOf msg).all fun part => !lenient part

section
variable {P : Lib.Platform} {messages : List OpenAIChatMessage}

theorem refusal_of_none (h : messages.findSome? (refusalOf P) = none) :
    ∀ msg ∈ messages, ∀ part ∈ partsOf msg, refusal P part = none := by
  intro msg hmsg
  have hmessage := List.findSome?_eq_none_iff.mp h msg hmsg
  exact List.findSome?_eq_none_iff.mp hmessage

theorem exists_refusal {e : Thrown} (h : messages.findSome? (refusalOf P) = some e) :
    ∃ msg ∈ messages, ∃ part ∈ partsOf msg, refusal P part = some e := by
  obtain ⟨msg, hmsg, hmessage⟩ := List.exists_of_findSome?_eq_some h
  exact ⟨msg, hmsg, List.exists_of_findSome?_eq_some hmessage⟩

theorem ReplacedMessage.stores {msg msg' : OpenAIChatMessage} {files : List File}
    (h : ReplacedMessage (Replaced Keeps) msg msg' files)
    (hlenient : ∀ part ∈ partsOf msg, lenient part = false) :
    ReplacedMessage (Replaced StoresImage) msg msg' files := by
  cases h with
  | keep hcontent => exact .keep hcontent
  | parts hcontent hparts =>
    rw [partsOf, hcontent] at hlenient
    exact .parts hcontent (hparts.imp fun part hpart _ _ h => h.stores (hlenient part hpart))

theorem exactOrNothing_of_neverLenient (h : neverLenient P messages = true) :
    ExactOrNothing P messages := by
  intro D dirs
  have hrun := materializeImages_sat (D := D) (P := P) (C := fun _ => False) messages
    ⟨dirs, none, 0⟩ rfl
  rw [neverLenient] at h
  revert hrun
  rcases materializeImages D P messages ⟨dirs, none, 0⟩ with ⟨out | e | _, w⟩
  · rintro ⟨hnone, files, hout, hw⟩
    rw [hnone] at h
    simp only [List.all_eq_true, Bool.not_eq_true'] at h
    refine ⟨fun msg hmsg part hpart => ?_, files, ?_, hw.stored⟩
    · exact (validPart_iff (refusal_of_none hnone msg hmsg part hpart)).mpr (h msg hmsg part hpart)
    · exact hout.imp fun msg hmsg _ _ hmessage => hmessage.stores (h msg hmsg)
  · rintro ⟨hdirs, ⟨rfl, hfails⟩ | hrefusal⟩
    · exact ⟨hdirs, fun _ => .inl ⟨rfl, hfails⟩⟩
    · refine ⟨hdirs, fun _ => .inr ?_⟩
      obtain ⟨msg, hmsg, part, hpart, hpart'⟩ := exists_refusal hrefusal
      rw [hrefusal] at h
      rw [refusal] at hpart'
      split at hpart'
      next e' hread =>
        cases hpart'
        rcases readPart_error hread with rfl | hmessage
        · cases hread
          cases h
        · exact hmessage
      next => cases hpart'
  · exact id

/-- A disk that does not fail as long as the directory is free. -/
def freeDisk : Disk where
  mkdtemp dirs :=
    match dirs "/tmp/claude-max-img-x".toList with
    | none => some "/tmp/claude-max-img-x".toList
    | some _ => none
  mkdtemp_fresh dirs dir h := by
    split at h
    next hfree =>
      cases h
      exact hfree
    next => cases h
  cut _ _ := none

theorem freeDisk_fails : ¬freeDisk.Fails fun _ => none := by
  rintro (h | ⟨path, bytes, h⟩)
  · cases h
  · exact h rfl

theorem neverLenient_of_exactOrNothing (h : ExactOrNothing P messages) :
    neverLenient P messages = true := by
  have hexact := h freeDisk fun _ => none
  have hrun := materializeImages_sat (D := freeDisk) (P := P) (C := fun _ => False) messages
    ⟨fun _ => none, none, 0⟩ rfl
  rw [neverLenient]
  revert hrun hexact
  rcases materializeImages freeDisk P messages ⟨fun _ => none, none, 0⟩ with ⟨out | e | _, w⟩
  · intro hexact hrun
    rw [hrun.1]
    simp only [List.all_eq_true, Bool.not_eq_true']
    intro msg hmsg part hpart
    exact (validPart_iff (refusal_of_none hrun.1 msg hmsg part hpart)).mp
      (hexact.1 msg hmsg part hpart)
  · rintro hexact ⟨-, ⟨-, hfails⟩ | hrefusal⟩
    · exact absurd hfails freeDisk_fails
    · rw [hrefusal, bne_iff_ne]
      rintro rfl
      obtain ⟨msg, hmsg, part, hpart, hpart'⟩ := exists_refusal hrefusal
      cases refusal_typeError.mp hpart'
      rcases hexact.2 ⟨msg, hmsg, .null, hpart, fun h => h.1 rfl⟩ with ⟨h, -⟩ | ⟨message, h⟩
      · cases h
      · cases h
  · exact fun _ => False.elim

end

/-- Images are stored exactly or not at all if and only if the first part that is refused, if any,
is not `null`, and, if none is, no data URL has an inherited media type or loose bits. -/
theorem exactOrNothing_iff (P : Lib.Platform) (messages : List OpenAIChatMessage) :
    ExactOrNothing P messages ↔ neverLenient P messages = true :=
  ⟨neverLenient_of_exactOrNothing, exactOrNothing_of_neverLenient⟩

def userMessage (content : List Json) : OpenAIChatMessage := ⟨"user", .arr content, []⟩

def imagePart (url : String) : Json :=
  .obj [("type", .str "image_url"), ("image_url", .obj [("url", .str url)])]

/-- An image of the media type `constructor`, one whose payload is not canonical, and a part that is
no object. -/
theorem not_exactOrNothing :
    ¬ExactOrNothing Lib.plainPlatform [userMessage [imagePart "data:constructor;base64,AAAA"]] ∧
    ¬ExactOrNothing Lib.plainPlatform [userMessage [imagePart "data:image/png;base64,AAB="]] ∧
    ¬ExactOrNothing Lib.plainPlatform [userMessage [.null]] := by
  refine ⟨fun h => ?_, fun h => ?_, fun h => ?_⟩ <;>
    exact absurd (neverLenient_of_exactOrNothing h) (by decide +kernel)

end CliProxy.Adapter.Image
