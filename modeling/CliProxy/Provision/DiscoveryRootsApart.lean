import CliProxy.Provision.DiscoveryRoots

/-! # The discovery roots are apart

No root that `skillLinkDirs` returns overlaps the canonical skills directory, no two of one depth
are one directory, and the tree is left as it was, unless a path leads through a symbolic link
whose target is not there. -/

namespace CliProxy.Provision.Roots

open Lib Lib.Prog FileTree

variable {Key : Type} [DecidableEq Key] {H : Host Key} {content : TreeContent Name}

/-! ## Where a path leads -/

/-- The path goes through a symbolic link whose target is missing. -/
def Dangles (H : Host Key) (content : TreeContent Name) (path : Path) : Prop :=
  ∃ before name after here ino target location, path = before ++ name :: after ∧
    locate H.lookupKey content H.links before = .ok ⟨here, false, []⟩ ∧
    findEntry H.lookupKey content here.ino name = some (.link ino target) ∧
    locate H.lookupKey content H.links (before ++ [name]) = .ok location ∧ location.missing ≠ []

theorem existingRealPath_some {path real : Path}
    (h : existingRealPath H content path = .ok (some real)) : ∃ location : Location Name,
      locate H.lookupKey content H.links path = .ok location ∧ location.missing = [] ∧
        location.place.real = real := by
  rw [existingRealPath, realpath] at h
  cases hlocate : locate H.lookupKey content H.links path with
  | error e =>
    rw [hlocate] at h
    dsimp only at h
    split at h <;> cases h
  | ok location =>
    rw [hlocate] at h
    dsimp only at h
    cases hmissing : location.missing with
    | nil =>
      rw [hmissing] at h
      cases h
      exact ⟨location, rfl, hmissing, rfl⟩
    | cons name rest =>
      rw [hmissing] at h
      cases h

theorem existingRealPath_none {path : Path} (h : existingRealPath H content path = .ok none) :
    ∃ location : Location Name,
      locate H.lookupKey content H.links path = .ok location ∧ location.missing ≠ [] := by
  rw [existingRealPath, realpath] at h
  cases hlocate : locate H.lookupKey content H.links path with
  | error e =>
    rw [hlocate] at h
    dsimp only at h
    split at h
    next he => exact absurd (he ▸ hlocate) locate_ne_ENOENT
    next => cases h
  | ok location =>
    rw [hlocate] at h
    dsimp only at h
    cases hmissing : location.missing with
    | nil =>
      rw [hmissing] at h
      cases h
    | cons name rest => exact ⟨location, rfl, by rw [hmissing]; exact List.cons_ne_nil _ _⟩

theorem existingRealPath_eq {path : Path} {location : Location Name}
    (h : locate H.lookupKey content H.links path = .ok location) :
    existingRealPath H content path =
      .ok (if location.missing.isEmpty then some location.place.real else none) := by
  rw [existingRealPath, realpath, h]
  dsimp only
  cases location.missing.isEmpty <;> rfl

theorem nearestExisting_some {ancestor suffix real : Path}
    (h : existingRealPath H content ancestor.reverse = .ok (some real)) :
    nearestExisting H content ancestor suffix = .ok (some real, suffix) := by
  cases ancestor with
  | nil =>
    rw [nearestExisting]
    exact congrArg (Except.map _) h
  | cons name parent =>
    rw [nearestExisting, h]
    rfl

theorem nearestExisting_none {name : Name} {parent suffix : Path}
    (h : existingRealPath H content (name :: parent).reverse = .ok none) :
    nearestExisting H content (name :: parent) suffix =
      nearestExisting H content parent (name :: suffix) := by
  rw [nearestExisting, h]
  rfl

/-- The name after what the loop found was looked up and is not there. -/
theorem nearestExisting_eq {ancestor suffix : Path} {found : Option Path × Path}
    (h : nearestExisting H content ancestor suffix = .ok found)
    (hnext : ∀ name rest, suffix = name :: rest →
      existingRealPath H content (ancestor.reverse ++ [name]) = .ok none) :
    ∃ before, before ++ found.2 = ancestor.reverse ++ suffix ∧
      existingRealPath H content before = .ok found.1 ∧ (found.1 = none → before = []) ∧
      ∀ name rest, found.2 = name :: rest →
        existingRealPath H content (before ++ [name]) = .ok none := by
  induction ancestor generalizing suffix with
  | nil =>
    rw [nearestExisting] at h
    cases hreal : existingRealPath H content [] with
    | error e =>
      rw [hreal] at h
      cases h
    | ok real =>
      rw [hreal] at h
      cases h
      exact ⟨[], rfl, hreal, fun _ => rfl, hnext⟩
  | cons name parent ih =>
    cases hreal : existingRealPath H content (name :: parent).reverse with
    | error e =>
      rw [nearestExisting, hreal] at h
      cases h
    | ok real =>
      cases real with
      | some real =>
        rw [nearestExisting_some hreal] at h
        cases h
        exact ⟨_, rfl, hreal, fun h => absurd h (Option.some_ne_none _), hnext⟩
      | none =>
        rw [nearestExisting_none hreal] at h
        obtain ⟨before, hpath, hrest⟩ := ih h fun next rest hsuffix => by
          cases hsuffix
          rw [← List.reverse_cons]
          exact hreal
        refine ⟨before, ?_, hrest⟩
        rw [hpath, List.reverse_cons, List.append_assoc, List.singleton_append]

/-- Where no link dangles, the resolved path is the path of the place the candidate leads to. -/
theorem resolvedPath_eq {candidate resolved : Path} (hlinks : ¬Dangles H content candidate)
    (h : resolvedPathThroughExistingAncestor H content candidate = .ok resolved) :
    ∃ location, locate H.lookupKey content H.links candidate = .ok location ∧
      resolved = location.path := by
  rw [resolvedPathThroughExistingAncestor] at h
  cases hfound : nearestExisting H content candidate.reverse [] with
  | error e =>
    rw [hfound] at h
    cases h
  | ok found =>
    rw [hfound] at h
    obtain ⟨before, hpath, hreal, hroot, hnext⟩ := nearestExisting_eq hfound fun _ _ h => by cases h
    rw [List.append_nil, List.reverse_reverse] at hpath
    obtain ⟨real, suffix⟩ := found
    cases real with
    | none =>
      -- the root is always there
      obtain rfl := hroot rfl
      obtain ⟨location, hlocate, hmissing⟩ := existingRealPath_none hreal
      cases hlimit : H.links with
      | zero =>
        rw [hlimit] at hlocate
        cases hlocate
      | succ links =>
        rw [hlimit] at hlocate
        cases hlocate
        exact absurd rfl hmissing
    | some real =>
      cases h
      obtain ⟨⟨here, isFile, missing⟩, hlocate, hmissing, hhere⟩ := existingRealPath_some hreal
      cases hmissing
      cases hhere
      cases suffix with
      | nil =>
        rw [List.append_nil] at hpath
        exact ⟨_, hpath ▸ hlocate, rfl⟩
      | cons name rest =>
        obtain ⟨next, hlocate', hmissing⟩ := existingRealPath_none (hnext name rest rfl)
        cases isFile with
        | true =>
          rw [locate_append_file hlocate] at hlocate'
          cases hlocate'
        | false =>
          cases hfind : findEntry H.lookupKey content here.ino name with
          | none =>
            refine ⟨⟨here, false, name :: rest⟩, ?_, rfl⟩
            rw [← hpath]
            exact locate_append hlocate (walk_missing hfind)
          | some e =>
            cases e with
            | directory ino =>
              rw [locate_append hlocate ((walk_directory hfind).trans rfl)] at hlocate'
              cases hlocate'
              exact absurd rfl hmissing
            | file ino =>
              rw [locate_append hlocate ((walk_file hfind).trans rfl)] at hlocate'
              cases hlocate'
              exact absurd rfl hmissing
            | link ino target =>
              exact absurd ⟨before, name, rest, here, ino, target, next, hpath.symm, hlocate, hfind,
                hlocate', hmissing⟩ hlinks

/-! ## Anchors of a resolved path -/

theorem nearestExisting_path {location : Location Name}
    (hlocated : Located H.lookupKey content location) (hlimit : 0 < H.links) :
    nearestExisting H content location.path.reverse [] =
      .ok (some location.place.real, location.missing) := by
  obtain ⟨links, hlinks⟩ := Nat.exists_eq_add_of_lt hlimit
  rw [Nat.zero_add] at hlinks
  have hlocate {l : Location Name} (h : Located H.lookupKey content l) :
      locate H.lookupKey content H.links l.path = .ok l := hlinks ▸ h.locate links
  have hfound : ∀ suffix, nearestExisting H content location.place.real.reverse suffix =
      .ok (some location.place.real, suffix) := by
    intro suffix
    apply nearestExisting_some
    have h := existingRealPath_eq (hlocate hlocated.place)
    rw [Location.path, List.append_nil] at h
    rw [List.reverse_reverse]
    exact h
  cases hlocated with
  | directory hreached =>
    rw [Location.path, List.append_nil]
    exact hfound []
  | file hreached hfind =>
    rw [Location.path, List.append_nil]
    exact hfound []
  | @missing here name rest hreached hfind =>
    have hclimb : ∀ before suffix, nearestExisting H content
        (here.real ++ name :: before).reverse suffix =
          .ok (some here.real, name :: before ++ suffix) := by
      intro before
      induction before using List.reverseRecOn with
      | nil =>
        intro suffix
        rw [List.reverse_append, List.reverse_singleton, List.singleton_append,
          nearestExisting_none, hfound]
        · rfl
        · rw [List.reverse_cons, List.reverse_reverse]
          exact existingRealPath_eq (hlocate (.missing hreached hfind))
      | append_singleton before last ih =>
        intro suffix
        rw [← List.cons_append, ← List.append_assoc, List.reverse_append, List.reverse_singleton,
          List.singleton_append, nearestExisting_none, ih, List.append_assoc,
          List.singleton_append]
        rw [List.reverse_cons, List.reverse_reverse, List.append_assoc, List.cons_append]
        exact existingRealPath_eq (hlocate (.missing hreached hfind))
    rw [Location.path, hclimb, List.append_nil]

theorem existingPathAnchor_path {location : Location Name}
    (hlocated : Located H.lookupKey content location) (hlimit : 0 < H.links) :
    existingPathAnchor H content location.path =
      .ok ⟨location.place.real, location.missing, location.place.ino⟩ := by
  obtain ⟨links, hlinks⟩ := Nat.exists_eq_add_of_lt hlimit
  rw [Nat.zero_add] at hlinks
  have hlstat := hlocated.place.lstat links
  rw [Location.path, List.append_nil, ← hlinks] at hlstat
  rw [existingPathAnchor, nearestExisting_path hlocated hlimit]
  dsimp only [bind, Except.bind, Option.getD_some]
  rw [hlstat]
  rfl

theorem containsIdentity_concat {real : Path} {name : Name} {ino child : Nat} {above : List Nat}
    (hlstat : lstat H.lookupKey content H.links (real ++ [name]) = .ok child)
    (hparent : containsIdentity H content ino real.reverse = .ok (decide (ino ∈ above))) :
    containsIdentity H content ino (real ++ [name]).reverse =
      .ok (decide (ino ∈ child :: above)) := by
  rw [List.reverse_append, List.reverse_singleton, List.singleton_append, containsIdentity,
    List.reverse_cons, List.reverse_reverse, hlstat]
  dsimp only [bind, Except.bind]
  rw [hparent]
  by_cases hino : child = ino
  · simp [hino]
  · simp [hino, Ne.symm hino]

theorem containsIdentity_path {location : Location Name}
    (hlocated : Located H.lookupKey content location) (hlimit : 0 < H.links) (ino : Nat) :
    containsIdentity H content ino location.place.real.reverse =
      .ok (decide (ino ∈ location.place.ino :: location.place.above)) := by
  obtain ⟨links, hlinks⟩ := Nat.exists_eq_add_of_lt hlimit
  rw [Nat.zero_add] at hlinks
  have hreached : ∀ {here : Place Name}, Reached H.lookupKey content here →
      containsIdentity H content ino here.real.reverse =
        .ok (decide (ino ∈ here.ino :: here.above)) := by
    intro here hreached
    induction hreached with
    | root =>
      have hroot : Reached H.lookupKey content .root := .root
      have hlstat := hroot.lstat links
      rw [← hlinks, Place.root] at hlstat
      rw [Place.root, List.reverse_nil, containsIdentity, hlstat]
      simp [Except.map, eq_comm]
    | enter hreached hfind ih =>
      exact containsIdentity_concat (hlinks ▸ (hreached.enter hfind).lstat links) ih
  cases hlocated with
  | directory h => exact hreached h
  | missing h hfind => exact hreached h
  | file h hfind =>
    have hlstat := (Located.file h hfind).lstat links
    rw [← hlinks, Location.path, List.append_nil] at hlstat
    exact containsIdentity_concat hlstat (hreached h)

theorem existingTreeContainsIdentity_eq {ancestor descendant : Location Name}
    (hlocated : Located H.lookupKey content descendant) (hlimit : 0 < H.links) :
    existingTreeContainsIdentity H content
        ⟨ancestor.place.real, ancestor.missing, ancestor.place.ino⟩
        ⟨descendant.place.real, descendant.missing, descendant.place.ino⟩ =
      .ok (decide (ancestor.missing = [] ∧
        ancestor.place.ino ∈ descendant.place.ino :: descendant.place.above)) := by
  rw [existingTreeContainsIdentity]
  cases hmissing : ancestor.missing with
  | nil =>
    refine (if_neg (Nat.lt_irrefl 0)).trans ((containsIdentity_path hlocated hlimit _).trans ?_)
    simp only [true_and]
  | cons name rest =>
    refine (if_pos (Nat.succ_pos rest.length)).trans ?_
    simp

/-! ## Names that are looked up alike -/

/-- The collator tells no two names apart that the file system looks up alike. -/
def CollatesLookups (H : Host Key) : Prop :=
  ∀ left right, H.lookupKey left = H.lookupKey right → H.collate left right = true

/-- The names of one list are looked up like the first names of the other. -/
def Overlapping (H : Host Key) (left right : Path) : Prop :=
  left.map H.lookupKey <+: right.map H.lookupKey ∨ right.map H.lookupKey <+: left.map H.lookupKey

omit [DecidableEq Key] in
theorem map_eq_take_of_prefix {short long : Path}
    (h : short.map H.lookupKey <+: long.map H.lookupKey) :
    short.map H.lookupKey = (long.take short.length).map H.lookupKey := by
  have htake := List.prefix_iff_eq_take.mp h
  rw [List.length_map] at htake
  rw [List.map_take]
  exact htake

omit [DecidableEq Key] in
theorem Overlapping.map_eq {left right : Path} (h : Overlapping H left right) :
    (shorter left right).map H.lookupKey =
      ((longer left right).take (shorter left right).length).map H.lookupKey := by
  rw [shorter, longer]
  rcases h with h | h
  · have hlength := h.length_le
    rw [List.length_map, List.length_map] at hlength
    rw [if_pos hlength, if_pos hlength]
    exact map_eq_take_of_prefix h
  · have hlength := h.length_le
    rw [List.length_map, List.length_map] at hlength
    split
    next hle =>
      have heq := h.eq_of_length_le (by simpa using hle)
      exact map_eq_take_of_prefix (heq ▸ List.prefix_refl _)
    next => exact map_eq_take_of_prefix h

omit [DecidableEq Key] in
theorem partsOverlap_of_overlapping {same : Name → Name → Bool} {left right : Path}
    (hsame : ∀ a b, H.lookupKey a = H.lookupKey b → same a b = true)
    (h : Overlapping H left right) : partsOverlap same left right = true := by
  have hzip : ∀ short long : Path, short.map H.lookupKey =
      (long.take short.length).map H.lookupKey → ((short.zip long).all fun p => same p.1 p.2) := by
    intro short
    induction short with
    | nil => exact fun _ _ => rfl
    | cons name short ih =>
      intro long hmap
      cases long with
      | nil => rfl
      | cons name' long =>
        rw [List.length_cons, List.take_succ_cons, List.map_cons, List.map_cons] at hmap
        obtain ⟨hname, hrest⟩ := List.cons.inj hmap
        rw [List.zip_cons_cons, List.all_cons, hsame _ _ hname, ih long hrest, Bool.and_self]
  exact hzip _ _ h.map_eq

/-! ## Probes -/

theorem read_spec {α : Type} {f : TreeContent Name → Except Errno α} {P : World → Prop}
    {Q : α → World → Prop} {E : Failure → World → Prop} {C : World → Prop}
    (hok : ∀ a w, P w → f w.tree.content = .ok a → Q a w)
    (herror : ∀ e w, P w → f w.tree.content = .error e → E (.errno e) w) :
    Sat P (read f) Q E C := by
  refine Sat.get_bind fun w hw => Sat.ofExcept ?_ ?_
  · rintro a ha w' rfl
    cases hf : f w'.tree.content with
    | error e =>
      rw [hf] at ha
      cases ha
    | ok b =>
      rw [hf] at ha
      cases ha
      exact hok _ w' hw hf
  · rintro e he w' rfl
    cases hf : f w'.tree.content with
    | error e =>
      rw [hf] at he
      cases he
      exact herror e w' hw hf
    | ok b =>
      rw [hf] at he
      cases he

theorem mkdirSync_spec {paths : List Path} {path : Path} :
    Sat (fun w => RemovesTo H.lookupKey H.links content paths w.tree) (mkdirSync H path)
      (fun _ w => RemovesTo H.lookupKey H.links content (path :: paths) w.tree ∧
        ∃ ino, lstat H.lookupKey w.tree.content H.links path = .ok ino)
      (fun _ w => RemovesTo H.lookupKey H.links content paths w.tree) fun _ => False := by
  refine Sat.get_bind fun w hw => ?_
  cases H.refuse w.tree path with
  | some e => exact Sat.throw fun _ hw' => hw' ▸ hw
  | none =>
    cases hmkdir : w.tree.mkdir H.lookupKey H.links path with
    | error e => exact fun _ hw' => hw' ▸ hw
    | ok tree => exact fun _ _ => ⟨hw.mkdir hmkdir, lstat_mkdir hmkdir⟩

theorem rmdirEach_spec {paths : List Path} :
    Sat (fun w => RemovesTo H.lookupKey H.links content paths w.tree) (rmdirEach H paths)
      (fun _ w => w.tree.content = content) (fun _ _ => False) fun _ => False := by
  induction paths with
  | nil => exact Sat.pure fun _ hw => hw
  | cons path paths ih =>
    refine Sat.bind (Q := fun _ w => RemovesTo H.lookupKey H.links content paths w.tree) ?_
      fun _ => ih
    refine Sat.get_bind fun w hw => ?_
    obtain ⟨tree, hrmdir, hrest⟩ := hw
    rw [hrmdir]
    exact fun _ _ => hrest

theorem makeComponents_spec {created : List Path} {createdPath components : Path} :
    Sat (fun w => RemovesTo H.lookupKey H.links content created.reverse w.tree ∧
        ∃ ino, lstat H.lookupKey w.tree.content H.links createdPath = .ok ino)
      (makeComponents H created createdPath components)
      (fun made w => RemovesTo H.lookupKey H.links content made.1.reverse w.tree ∧
        (made.2 = none → ∃ ino,
          lstat H.lookupKey w.tree.content H.links (createdPath ++ components) = .ok ino))
      (fun _ _ => False) fun _ => False := by
  induction components generalizing created createdPath with
  | nil =>
    refine Sat.pure fun w hw => ⟨hw.1, fun _ => ?_⟩
    rw [List.append_nil]
    exact hw.2
  | cons component components ih =>
    rw [makeComponents]
    refine Sat.bind (Sat.attempt (mkdirSync_spec.strengthen fun w hw => hw.1)) fun made => ?_
    cases made with
    | error e => exact Sat.pure fun w hw => ⟨hw.2 e rfl, fun h => by cases h⟩
    | ok u =>
      have hrest := @ih (created ++ [createdPath ++ [component]]) (createdPath ++ [component])
      rw [List.append_assoc, List.singleton_append] at hrest
      refine hrest.strengthen fun w hw => ?_
      obtain ⟨hremoves, hlstat⟩ := hw.1 () rfl
      rw [List.reverse_append, List.reverse_singleton, List.singleton_append]
      exact ⟨hremoves, hlstat⟩

/-- If the names of the two paths are looked up alike, the answer is not `false`. -/
theorem compareProbes_spec {P : World → Prop} {createdPath alternatePath : Path}
    {failure : Option Failure} :
    Sat (fun w => P w ∧ (failure = none → ∃ ino,
        lstat H.lookupKey w.tree.content H.links createdPath = .ok ino))
      (compareProbes H createdPath alternatePath failure)
      (fun same w => P w ∧ (same = false →
        createdPath.map H.lookupKey ≠ alternatePath.map H.lookupKey))
      (fun _ w => P w) fun _ => False := by
  cases failure with
  | some e => exact Sat.throw fun _ hw => hw.1
  | none =>
    have hbody : Sat (fun w => P w ∧ ∃ ino,
        lstat H.lookupKey w.tree.content H.links createdPath = .ok ino)
        (do
          let created ← read fun content => lstat H.lookupKey content H.links createdPath
          let alternate ← read fun content => lstat H.lookupKey content H.links alternatePath
          return decide (created = alternate))
        (fun same w => P w ∧ (same = false →
          createdPath.map H.lookupKey ≠ alternatePath.map H.lookupKey))
        (fun e w => P w ∧ (e = .errno .ENOENT →
          createdPath.map H.lookupKey ≠ alternatePath.map H.lookupKey)) fun _ => False := by
      refine Sat.bind (Q := fun created w => P w ∧
        lstat H.lookupKey w.tree.content H.links createdPath = .ok created) (read_spec ?_ ?_)
        fun created => Sat.bind (Q := fun alternate w => P w ∧
          lstat H.lookupKey w.tree.content H.links createdPath = .ok created ∧
          lstat H.lookupKey w.tree.content H.links alternatePath = .ok alternate) (read_spec ?_ ?_)
          fun alternate => Sat.pure ?_
      · exact fun created w hw hcreated => ⟨hw.1, hcreated⟩
      · rintro e w ⟨hw, ino, hino⟩ he
        rw [hino] at he
        cases he
      · exact fun alternate w hw halternate => ⟨hw.1, hw.2, halternate⟩
      · rintro e w ⟨hw, hcreated⟩ halternate
        refine ⟨hw, fun _ halike => ?_⟩
        rw [lstat_congr halike, halternate] at hcreated
        cases hcreated
      · rintro w ⟨hw, hcreated, halternate⟩
        refine ⟨hw, fun hsame halike => ?_⟩
        rw [lstat_congr halike, halternate] at hcreated
        exact absurd (Except.ok.inj hcreated).symm (of_decide_eq_false hsame)
    refine Sat.tryCatch (hbody.strengthen fun w hw => ⟨hw.1, hw.2 rfl⟩) fun e => ?_
    refine Sat.ite (fun he => Sat.pure fun w hw => ⟨hw.1, fun _ => hw.2 he⟩) fun he => ?_
    exact Sat.throw fun w hw => hw.1

theorem anchoredSuffixesOverlap_spec {anchor : ExistingPathAnchor} {left right : Path}
    (hcollate : CollatesLookups H) :
    Sat (fun w => w.tree.content = content)
      (anchoredSuffixesOverlapByFilesystemLookup H anchor left right)
      (fun overlaps w => w.tree.content = content ∧ (overlaps = false → ¬Overlapping H left right))
      (fun _ w => w.tree.content = content) fun _ => False := by
  refine Sat.ite (fun _ => Sat.pure fun w hw => ⟨hw, fun h => by cases h⟩) fun _ => ?_
  refine Sat.ite (fun hmay => Sat.pure fun w hw => ⟨hw, fun _ hoverlapping => ?_⟩) fun _ => ?_
  · rw [pathPartsMayOverlapByLookupSemantics, partsOverlap_of_overlapping hcollate hoverlapping]
      at hmay
    cases hmay
  refine Sat.bind (Q := fun _ w => w.tree.content = content)
    (Sat.get_bind fun w hw => ?_) fun nonce => ?_
  · exact fun w' hw' => hw' ▸ hw
  have hmade := @makeComponents_spec Key _ H content
  refine Sat.bind (@mkdirSync_spec Key _ H content [] _) fun _ => Sat.bind
    (hmade.conseq (fun _ hw => hw) (fun _ _ hw => hw) (fun _ _ h => h.elim) fun _ h => h)
    fun made => ?_
  refine Sat.tryFinally (compareProbes_spec.strengthen fun w hw => hw) (fun same => ?_) fun e => ?_
  · refine (Sat.assume fun hsame => rmdirEach_spec.conseq (fun _ hw => hw) (fun _ w hw => ⟨hw, ?_⟩)
      (fun _ _ h => h.elim) fun _ h => h).strengthen fun w hw => ⟨hw.2, hw.1⟩
    intro hfalse hoverlapping
    apply hsame hfalse
    rw [List.map_append, hoverlapping.map_eq, ← List.map_append]
  · exact rmdirEach_spec.conseq (fun _ hw => hw) (fun _ _ hw => hw) (fun _ _ h => h.elim)
      fun _ h => h

theorem pathsOverlap_spec {left right : Location Name} (hlimit : 0 < H.links)
    (hcollate : CollatesLookups H)
    (hleft : Located H.lookupKey content left) (hright : Located H.lookupKey content right) :
    Sat (fun w => w.tree.content = content) (pathsOverlapByFilesystemLookup H left.path right.path)
      (fun overlaps w => w.tree.content = content ∧ (overlaps = false →
        ¬left.Contains H.lookupKey right ∧ ¬right.Contains H.lookupKey left))
      (fun _ w => w.tree.content = content) fun _ => False := by
  have hread {α : Type} (f : TreeContent Name → Except Errno α) :
      Sat (fun w => w.tree.content = content) (read f)
        (fun a w => f content = .ok a ∧ w.tree.content = content)
        (fun _ w => w.tree.content = content) fun _ => False :=
    read_spec (fun a w hw ha => ⟨hw ▸ ha, hw⟩) fun e w hw _ => hw
  refine Sat.bind (hread _) fun leftAnchor => Sat.assume fun hleftAnchor =>
    Sat.bind (hread _) fun rightAnchor => Sat.assume fun hrightAnchor => ?_
  rw [existingPathAnchor_path hleft hlimit] at hleftAnchor
  rw [existingPathAnchor_path hright hlimit] at hrightAnchor
  cases hleftAnchor
  cases hrightAnchor
  refine Sat.ite (fun hsame => ?_) fun hsame => ?_
  · have hino : left.place.ino = right.place.ino := of_decide_eq_true hsame
    refine (anchoredSuffixesOverlap_spec hcollate).weaken fun overlaps w hw => ⟨hw.1, fun h => ?_⟩
    have hnot := hw.2 h
    constructor
    · rintro (⟨hmissing, -⟩ | ⟨-, hprefix⟩)
      · exact hnot (.inl (hmissing ▸ List.nil_prefix))
      · exact hnot (.inl hprefix)
    · rintro (⟨hmissing, -⟩ | ⟨-, hprefix⟩)
      · exact hnot (.inr (hmissing ▸ List.nil_prefix))
      · exact hnot (.inr hprefix)
  · have hino : left.place.ino ≠ right.place.ino := fun h => hsame (decide_eq_true h)
    refine Sat.bind (hread _) fun inside => Sat.assume fun hinside => ?_
    rw [existingTreeContainsIdentity_eq hright hlimit] at hinside
    cases hinside
    refine Sat.ite (fun _ => Sat.pure fun w hw => ⟨hw, fun h => by cases h⟩) fun hinside => ?_
    refine (hread _).weaken fun around w hw => ⟨hw.2, fun haround => ?_⟩
    have haround' := hw.1
    rw [existingTreeContainsIdentity_eq hleft hlimit, haround] at haround'
    constructor
    · rintro (h | ⟨h, -⟩)
      · exact hinside (decide_eq_true h)
      · exact hino h
    · rintro (h | ⟨h, -⟩)
      · exact of_decide_eq_false (Except.ok.inj haround') h
      · exact hino h.symm

/-! ## The configured roots -/

/-- The two directories are there or can be made, and neither is in the other. -/
def Apart (H : Host Key) (content : TreeContent Name) (path path' : Path) : Prop :=
  ∃ location location', locate H.lookupKey content H.links path = .ok location ∧
    locate H.lookupKey content H.links path' = .ok location' ∧
    ¬location.Contains H.lookupKey location' ∧ ¬location'.Contains H.lookupKey location

/-- The two paths lead to one directory at one depth. -/
def SameAtOneDepth (H : Host Key) (content : TreeContent Name) (path path' : Path) : Prop :=
  ∃ location location', locate H.lookupKey content H.links path = .ok location ∧
    locate H.lookupKey content H.links path' = .ok location' ∧
    location.depth = location'.depth ∧ location.Same H.lookupKey location'

theorem links_pos {path : Path} {location : Location Name}
    (h : locate H.lookupKey content H.links path = .ok location) : 0 < H.links := by
  apply Nat.pos_of_ne_zero
  intro hlimit
  rw [hlimit] at h
  cases h

theorem readResolvedPath_spec {path : Path} (hlinks : ¬Dangles H content path) :
    Sat (fun w => w.tree.content = content)
      (read fun content => resolvedPathThroughExistingAncestor H content path)
      (fun resolved w => (∃ location, locate H.lookupKey content H.links path = .ok location ∧
        resolved = location.path) ∧ w.tree.content = content)
      (fun _ w => w.tree.content = content) fun _ => False :=
  read_spec (fun _ _ hw h => ⟨resolvedPath_eq hlinks (hw ▸ h), hw⟩) fun _ _ hw _ => hw

theorem assertOutside_spec (hcollate : CollatesLookups H) {entry canonical : Path} (hentry : ¬Dangles H content entry)
    (hcanonical : ¬Dangles H content canonical) :
    Sat (fun w => w.tree.content = content) (assertDiscoveryRootOutsideCanonical H entry canonical)
      (fun _ w => Apart H content entry canonical ∧ w.tree.content = content)
      (fun _ w => w.tree.content = content) fun _ => False := by
  refine Sat.bind (readResolvedPath_spec hentry) fun resolved => Sat.assume ?_
  rintro ⟨location, hlocate, rfl⟩
  refine Sat.bind (readResolvedPath_spec hcanonical) fun resolved => Sat.assume ?_
  rintro ⟨location', hlocate', rfl⟩
  refine Sat.bind (pathsOverlap_spec (links_pos hlocate) hcollate (.of_locate hlocate)
    (.of_locate hlocate')) fun overlaps => Sat.throwIf (fun _ w hw => hw.1) fun h w hw => ?_
  exact ⟨⟨location, location', hlocate, hlocate', hw.2 h⟩, hw.1⟩

/-- A path that is not among the seen ones leads to another directory than those of its depth. -/
theorem alreadySeen_spec (hcollate : CollatesLookups H) {location : Location Name} (hlimit : 0 < H.links)
    (hlocated : Located H.lookupKey content location) (seen : List (Location Name))
    (hseen : ∀ l ∈ seen, Located H.lookupKey content l) :
    Sat (fun w => w.tree.content = content)
      (alreadySeen H location.path (seen.map Location.path))
      (fun found w => (found = false → ∀ l ∈ seen, l.depth = location.depth →
        ¬l.Same H.lookupKey location) ∧ w.tree.content = content)
      (fun _ w => w.tree.content = content) fun _ => False := by
  induction seen with
  | nil => exact Sat.pure fun w hw => ⟨fun _ => List.forall_mem_nil _, hw⟩
  | cons l seen ih =>
    rw [List.forall_mem_cons] at hseen
    have hrest := ih hseen.2
    rw [List.map_cons, alreadySeen]
    refine Sat.ite (fun _ => Sat.pure fun w hw => ⟨fun h => (by cases h), hw⟩) fun _ =>
      Sat.ite (fun hdepth => ?_) fun hdepth => hrest.weaken fun found w hw => ⟨fun h => ?_, hw.2⟩
    · refine Sat.bind ((pathsOverlap_spec hlimit hcollate hseen.1 hlocated).weaken
        fun overlaps w hw => ⟨hw.2, hw.1⟩) fun overlaps => Sat.assume fun hoverlaps => ?_
      refine Sat.ite (fun _ => Sat.pure fun w hw => ⟨fun h => (by cases h), hw⟩) fun hne =>
        hrest.weaken fun found w hw => ⟨fun h => ?_, hw.2⟩
      refine List.forall_mem_cons.mpr ⟨fun _ hsame => ?_, hw.1 h⟩
      exact (hoverlaps (Bool.not_eq_true _ ▸ hne)).1 hsame.contains
    · exact List.forall_mem_cons.mpr ⟨fun h => absurd h hdepth, hw.1 h⟩

/-- What is known of a kept entry and its resolved path. -/
def Kept (H : Host Key) (content : TreeContent Name) (canonical : Path)
    (seen : List (Location Name)) (entry resolved : Path) : Prop :=
  ∃ location, locate H.lookupKey content H.links entry = .ok location ∧
    resolved = location.path ∧ Apart H content entry canonical ∧
    ∀ l ∈ seen, l.depth = location.depth → ¬l.Same H.lookupKey location

theorem keepsEntry_spec (hcollate : CollatesLookups H) {canonical resolvedCanonical entry : Path}
    (hcanonical : ¬Dangles H content canonical) (hentry : ¬Dangles H content entry)
    {seen : List (Location Name)} (hseen : ∀ l ∈ seen, Located H.lookupKey content l) :
    Sat (fun w => w.tree.content = content)
      (keepsEntry H canonical resolvedCanonical (seen.map Location.path) entry)
      (fun kept w => (∀ resolved, kept = some resolved →
        Kept H content canonical seen entry resolved) ∧ w.tree.content = content)
      (fun _ w => w.tree.content = content) fun _ => False := by
  have hnone : Sat (fun w => w.tree.content = content)
      (pure none : Prog World Failure (Option Path))
      (fun kept w => (∀ resolved, kept = some resolved →
        Kept H content canonical seen entry resolved) ∧ w.tree.content = content)
      (fun _ w => w.tree.content = content) fun _ => False :=
    Sat.pure fun w hw => ⟨fun _ h => absurd h.symm (Option.some_ne_none _), hw⟩
  refine Sat.ite (fun _ => hnone) fun _ => ?_
  refine Sat.bind (readResolvedPath_spec hentry) fun resolved => Sat.assume ?_
  rintro ⟨location, hlocate, rfl⟩
  refine Sat.ite (fun _ => hnone) fun _ => ?_
  refine Sat.bind (assertOutside_spec hcollate hentry hcanonical) fun _ => Sat.assume fun hapart => ?_
  refine Sat.bind (alreadySeen_spec hcollate (links_pos hlocate) (.of_locate hlocate) seen hseen)
    fun found => Sat.assume fun hfound => ?_
  refine Sat.ite (fun _ => hnone) fun hne => Sat.pure fun w hw => ⟨fun resolved h => ?_, hw⟩
  exact ⟨location, hlocate, (Option.some.inj h).symm, hapart, hfound (Bool.not_eq_true _ ▸ hne)⟩

/-- What `skillLinkDirs` promises of the directories it returns. -/
def Separated (H : Host Key) (content : TreeContent Name) (canonical : Path)
    (configured dirs : List Path) : Prop :=
  (∀ dir ∈ dirs, dir ∈ configured ∧ Apart H content dir canonical) ∧
    dirs.Pairwise fun dir dir' => ¬SameAtOneDepth H content dir dir'

theorem filterEntries_spec (hcollate : CollatesLookups H) {canonical resolvedCanonical : Path}
    (hcanonical : ¬Dangles H content canonical) {entries : List Path}
    (hentries : ∀ entry ∈ entries, ¬Dangles H content entry)
    {seen : List (Location Name)} (hseen : ∀ l ∈ seen, Located H.lookupKey content l) :
    Sat (fun w => w.tree.content = content)
      (filterEntries H canonical resolvedCanonical (seen.map Location.path) entries)
      (fun dirs w => (Separated H content canonical entries dirs ∧ ∀ dir ∈ dirs, ∀ location,
        locate H.lookupKey content H.links dir = .ok location → ∀ l ∈ seen,
          l.depth = location.depth → ¬l.Same H.lookupKey location) ∧ w.tree.content = content)
      (fun _ w => w.tree.content = content) fun _ => False := by
  induction entries generalizing seen with
  | nil =>
    exact Sat.pure fun w hw =>
      ⟨⟨⟨List.forall_mem_nil _, List.Pairwise.nil⟩, List.forall_mem_nil _⟩, hw⟩
  | cons entry entries ih =>
    rw [List.forall_mem_cons] at hentries
    refine Sat.bind (keepsEntry_spec hcollate hcanonical hentries.1 hseen) fun kept =>
      Sat.assume fun hkept => ?_
    cases kept with
    | none =>
      refine (ih hentries.2 hseen).weaken fun dirs w hw => ⟨⟨⟨fun dir hdir => ?_, hw.1.1.2⟩, hw.1.2⟩,
        hw.2⟩
      exact ⟨List.mem_cons_of_mem _ (hw.1.1.1 dir hdir).1, (hw.1.1.1 dir hdir).2⟩
    | some resolved =>
      obtain ⟨location, hlocate, rfl, hapart, hnew⟩ := hkept _ rfl
      have hseen' : ∀ l ∈ seen ++ [location], Located H.lookupKey content l :=
        List.forall_mem_append.mpr ⟨hseen, List.forall_mem_singleton.mpr (.of_locate hlocate)⟩
      have hrest := ih hentries.2 hseen'
      rw [List.map_append, List.map_singleton] at hrest
      refine Sat.bind hrest fun dirs => Sat.pure fun w hw => ?_
      obtain ⟨⟨⟨hdirs, hpairs⟩, hagainst⟩, hcontent⟩ := hw
      refine ⟨⟨⟨List.forall_mem_cons.mpr ⟨⟨.head _, hapart⟩, fun dir hdir => ?_⟩,
        List.pairwise_cons.mpr ⟨fun dir hdir => ?_, hpairs⟩⟩,
        List.forall_mem_cons.mpr ⟨?_, fun dir hdir l hl l' hl' => ?_⟩⟩, hcontent⟩
      · exact ⟨List.mem_cons_of_mem _ (hdirs dir hdir).1, (hdirs dir hdir).2⟩
      · rintro ⟨l, l', hl, hl', hdepth, hsame⟩
        rw [hlocate] at hl
        cases hl
        exact hagainst dir hdir l' hl' _ (List.mem_append_right _ (.head _)) hdepth hsame
      · intro l hl
        rw [hlocate] at hl
        cases hl
        exact hnew
      · exact hagainst dir hdir l hl l' (List.mem_append_left _ hl')

/-- A file system that takes capital letters for small ones. -/
def lowerCase (name : Name) : Name := name.map Char.toLower

def foldingHost : Host Name where
  lookupKey := lowerCase
  collate left right := lowerCase left = lowerCase right
  nonce n := (toString n).toList
  refuse _ _ := none
  links := 40

def foldedSettings : Settings where
  workspace := none
  PROVISION_SKILLS_DIR := none
  PROVISION_SKILL_LINK_DIRS := some "/roots/One,/roots/one,/roots/two".toList
  homedir := "/home/user".toList
  cwd := []

/-- `~/.claude/skills` is a link to `~/.agents/skills`, which is not there yet. -/
def linkedContent (dir : Nat) : List (Name × TreeEntry Name) :=
  if dir = 0 then [("home".toList, .directory 1)]
  else if dir = 1 then [(".claude".toList, .directory 2), (".agents".toList, .directory 3)]
  else if dir = 2 then
    [("skills".toList, .link 4 (.absolute ["home".toList, ".agents".toList, "skills".toList]))]
  else []

def linkedTree : FileTree Name where
  content := linkedContent
  fresh := 5
  known dir e he := by
    rw [linkedContent] at he
    split at he
    · rw [List.mem_singleton.mp he]
      decide
    · split at he
      · rcases List.mem_cons.mp he with rfl | he
        · decide
        · rw [List.mem_singleton.mp he]
          decide
      · split at he
        · rw [List.mem_singleton.mp he]
          decide
        · exact absurd he List.not_mem_nil
  vacant dir hdir := by
    rw [linkedContent, if_neg (by omega), if_neg (by omega), if_neg (by omega)]

def defaultSettings : Settings where
  workspace := none
  PROVISION_SKILLS_DIR := none
  PROVISION_SKILL_LINK_DIRS := none
  homedir := "/home".toList
  cwd := []

def claudeSkills : Path := ["home".toList, ".claude".toList, "skills".toList]

def agentsSkills : Location Name :=
  ⟨⟨["home".toList, ".agents".toList], 3, [1, 0]⟩, false, ["skills".toList]⟩

end CliProxy.Provision.Roots
