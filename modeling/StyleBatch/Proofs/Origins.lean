import StyleBatch.Proofs.Canonical

/-!
# The forms of an address

A file is named by its path, by the path behind a directory as a `file:` URL, or by the path behind
an origin.  As no origin stands in the path itself, the first one is all that is removed, and what
is left is the path.  So the base paths of the forms are one, and with them the keys of the imports.

* `Address.afterOrigin?_eq_some_iff`: what follows an origin, and nothing else, is read.
* `Address.withoutOrigin_append`, `withoutOrigin_eq_self`: the origin in front goes, a path without
  origins stays.
* `Address.base_of_form`: every form has the base path of the bare path.
* `Address.toImport_forms`: the key space is one.
-/

namespace StyleBatch.Address

/-- `http://host/` and `https://host/`, up to the path. -/
inductive Origin : Text → Prop
  | http {host : Text} : host ≠ [] → '/' ∉ host → Origin ("http://" ++ host ++ "/")
  | https {host : Text} : host ≠ [] → '/' ∉ host → Origin ("https://" ++ host ++ "/")

/-- No origin stands in the path. -/
def Local (path : Text) : Prop :=
  ∀ origin, Origin origin → ¬origin <:+: path

/-- The addresses of the file at a path, with the working directory they are read in. -/
inductive Form (path : Text) : Option Text → Text → Prop
  | bare : Form path none path
  | file (directory : Text) : Form path (some directory) ("file:" ++ directory ++ "/" ++ path)
  | url {origin : Text} : Origin origin → Form path none (origin ++ path)

variable {path t : Text}

/-! ## Origins -/

/-- What stands behind a host and its slash. -/
def behindHost? (t : Text) : Option Text :=
  match t.takeWhile (· != '/'), t.dropWhile (· != '/') with
  | _ :: _, _ :: path => some path
  | _, _ => none

theorem behindHost?_append {host : Text} (hne : host ≠ []) (hslash : '/' ∉ host) (path : Text) :
    behindHost? (host ++ '/' :: path) = some path := by
  have hhost : ∀ c ∈ host, (c != '/') = true := fun c hc =>
    bne_iff_ne.mpr fun heq => hslash (heq ▸ hc)
  obtain ⟨c, host, rfl⟩ := List.exists_cons_of_ne_nil hne
  rw [behindHost?, List.takeWhile_append_of_pos hhost, List.dropWhile_append_of_pos hhost,
    List.dropWhile_cons_of_neg (by decide), List.cons_append]

/-- A host is what stands in front of the first slash. -/
theorem behindHost?_eq_some_iff :
    behindHost? t = some path ↔ ∃ host, host ≠ [] ∧ '/' ∉ host ∧ t = host ++ '/' :: path := by
  constructor
  · intro h
    rw [behindHost?] at h
    split at h
    · rename_i c host d rest htake hdrop
      cases h
      have hslash : '/' ∉ c :: host := fun hmem =>
        absurd (List.mem_takeWhile_imp (htake ▸ hmem)) (by decide)
      have hd : d = '/' := by
        have hstop := List.dropWhile_get_zero_not (· != '/') t (by simp [hdrop])
        simpa [hdrop] using hstop
      refine ⟨c :: host, List.cons_ne_nil _ _, hslash, ?_⟩
      rw [hd] at hdrop
      rw [← htake, ← hdrop, List.takeWhile_append_dropWhile]
    · cases h
  · rintro ⟨host, hne, hslash, rfl⟩
    exact behindHost?_append hne hslash path

theorem afterOrigin?_http (rest : Text) :
    afterOrigin? ("http://" ++ rest) = behindHost? rest := rfl

theorem afterOrigin?_https (rest : Text) :
    afterOrigin? ("https://" ++ rest) = behindHost? rest := rfl

/-- An origin is read with the scheme that it has. -/
theorem scheme_of_afterOrigin? (h : afterOrigin? t = some path) :
    ∃ rest, (t = "http://" ++ rest ∨ t = "https://" ++ rest) ∧ behindHost? rest = some path := by
  have hread := h
  simp only [afterOrigin?, Option.bind_eq_bind, Option.bind_eq_some_iff] at h
  obtain ⟨rest, hrest, tail, htail, -⟩ := h
  have htail := Text.eq_of_after? htail
  rw [Text.eq_of_after? hrest] at hread ⊢
  split at htail
  · subst htail
    exact ⟨tail, .inr rfl, hread⟩
  · subst htail
    exact ⟨tail, .inl rfl, hread⟩

theorem afterOrigin?_append {origin : Text} (h : Origin origin) (path : Text) :
    afterOrigin? (origin ++ path) = some path := by
  cases h with
  | http hne hslash =>
    rw [List.append_assoc, List.append_assoc, afterOrigin?_http]
    exact behindHost?_append hne hslash path
  | https hne hslash =>
    rw [List.append_assoc, List.append_assoc, afterOrigin?_https]
    exact behindHost?_append hne hslash path

/-- What follows an origin is read, and nothing else. -/
theorem afterOrigin?_eq_some_iff :
    afterOrigin? t = some path ↔ ∃ origin, Origin origin ∧ t = origin ++ path := by
  constructor
  · intro h
    obtain ⟨rest, hscheme, hrest⟩ := scheme_of_afterOrigin? h
    obtain ⟨host, hne, hslash, rfl⟩ := behindHost?_eq_some_iff.mp hrest
    rcases hscheme with rfl | rfl
    · exact ⟨_, .http hne hslash, by simp⟩
    · exact ⟨_, .https hne hslash, by simp⟩
  · rintro ⟨origin, horigin, rfl⟩
    exact afterOrigin?_append horigin path

/-! ## Removing an origin -/

theorem Origin.ne_nil {origin : Text} (h : Origin origin) : origin ≠ [] := by
  cases h <;> simp

/-- An origin at the start is the first. -/
theorem withoutOrigin_append {origin : Text} (h : Origin origin) (path : Text) :
    withoutOrigin (origin ++ path) = path := by
  obtain ⟨c, rest, rfl⟩ := List.exists_cons_of_ne_nil h.ne_nil
  have hread := afterOrigin?_append h path
  rw [List.cons_append] at hread ⊢
  rw [withoutOrigin, hread]

/-- No origin stands in a path without two slashes in a row. -/
theorem local_of_not_infix (h : ¬['/', '/'] <:+: path) : Local path := by
  intro origin horigin hwithin
  have hslashes : ['/', '/'] <:+: origin := by
    cases horigin with
    | @http host => exact ⟨"http:", host ++ ['/'], by simp⟩
    | @https host => exact ⟨"https:", host ++ ['/'], by simp⟩
  exact h (hslashes.trans hwithin)

theorem Local.tail {c : Char} (h : Local (c :: path)) : Local path :=
  fun origin horigin hwithin => h origin horigin (hwithin.trans (List.suffix_cons c path).isInfix)

theorem afterOrigin?_of_local (h : Local path) : afterOrigin? path = none := by
  rw [Option.eq_none_iff_forall_ne_some]
  intro rest hread
  obtain ⟨origin, horigin, rfl⟩ := afterOrigin?_eq_some_iff.mp hread
  exact h origin horigin (List.prefix_append _ _).isInfix

theorem withoutOrigin_eq_self (h : Local path) : withoutOrigin path = path := by
  induction path with
  | nil => rfl
  | cons c path ih => rw [withoutOrigin, afterOrigin?_of_local h, ih h.tail]

/-! ## Base paths -/

/-- A directory is removed where it stands in front. -/
theorem replaceFirst_directory (directory path : Text) :
    Text.replaceFirst ("file:" ++ directory ++ "/") [] ("file:" ++ directory ++ "/" ++ path) =
      path := by
  have hcut := Text.cut?_self 'f' ("ile:" ++ directory ++ "/") path
  have hmark : 'f' :: ("ile:" ++ directory ++ "/") = "file:" ++ directory ++ "/" := rfl
  rw [hmark] at hcut
  rw [Text.replaceFirst, hcut]
  rfl

variable {workingDirectory workingDirectory' : Option Text} {address address' : Text}

/-- Every form has the base path of the bare path. -/
theorem base_of_form (hpath : Local path) (h : Form path workingDirectory address) :
    base workingDirectory address = base none path := by
  cases h with
  | bare => rfl
  | file directory => rw [base, base, replaceFirst_directory]
  | url horigin => rw [base, base, withoutOrigin_append horigin, withoutOrigin_eq_self hpath]

/-- A base path ends in a slash. -/
theorem suffix_base (workingDirectory : Option Text) (address : Text) :
    ['/'] <:+ base workingDirectory address := by
  simp only [base]
  split
  · exact List.suffix_append _ _
  · exact List.suffix_refl _

/-- The bare path is cut behind its last slash. -/
theorem base_append {directory name : Text} (hpath : Local (directory ++ '/' :: name))
    (hname : '/' ∉ name) : base none (directory ++ '/' :: name) = directory ++ ['/'] := by
  rw [base, withoutOrigin_eq_self hpath, Text.cutAtLast?_append directory hname]

theorem base_name (hpath : Local path) (hslash : '/' ∉ path) : base none path = ['/'] := by
  rw [base, withoutOrigin_eq_self hpath, Text.cutAtLast?_of_not_mem hslash]

/-- The key space of all forms is one.  Two addresses of the file at a path have one base path: the
path up to its last slash, or the slash alone if it has none.  So every specifier is the same import
at both. -/
theorem toImport_forms (hpath : Local path) (h : Form path workingDirectory address)
    (h' : Form path workingDirectory' address') :
    base workingDirectory address = base workingDirectory' address' ∧
      ['/'] <:+ base workingDirectory address ∧
      (∀ directory name, '/' ∉ name → path = directory ++ '/' :: name →
        base workingDirectory address = directory ++ ['/']) ∧
      ('/' ∉ path → base workingDirectory address = ['/']) ∧
      ∀ extension specifier,
        Specifier.toImport extension (base workingDirectory address) specifier =
          Specifier.toImport extension (base workingDirectory' address') specifier := by
  have hbase := base_of_form hpath h
  have hbase' := base_of_form hpath h'
  refine ⟨hbase.trans hbase'.symm, suffix_base _ _, ?_, fun hslash => ?_, fun _ _ => ?_⟩
  · rintro directory name hname rfl
    rw [hbase, base_append hpath hname]
  · rw [hbase, base_name hpath hslash]
  · rw [hbase, hbase']

/-- A file on disk and behind a server's origin. -/
theorem toImport_forms_disk_server :
    Local "styles/_a.scss" ∧
      Specifier.toImport "scss" (base (some "/home/app") "file:/home/app/styles/_a.scss") "mixins" =
        Specifier.toImport "scss" (base none "https://localhost:8080/styles/_a.scss") "mixins" := by
  have hpath : Local "styles/_a.scss" :=
    local_of_not_infix (not_infix_of_pieces (by decide))
  have hdisk : Form "styles/_a.scss" (some "/home/app") "file:/home/app/styles/_a.scss" := by
    have hform : Form "styles/_a.scss" _ _ := .file "/home/app"
    simpa using hform
  have hserver : Form "styles/_a.scss" none "https://localhost:8080/styles/_a.scss" := by
    have hhost : '/' ∉ ("localhost:8080" : Text) := by decide
    have hform : Form "styles/_a.scss" _ _ := .url (.https (by decide) hhost)
    simpa using hform
  obtain ⟨-, -, -, -, himport⟩ := toImport_forms hpath hdisk hserver
  exact ⟨hpath, himport "scss" "mixins"⟩

end StyleBatch.Address
