import NixSecrets.SchemaValidation

namespace NixSecrets.Inventory

/-- A destination that the checks of the inventory let through, for a value of the service. -/
inductive Declared (service : String) (destination : Destination) : Prop
  | secret (name : List Char) (component : validateComponent service = .ok ())
      (category : destination.category ∈ ["setup", "service", "backup"])
      (mode : destination.mode ∈ ["0400", "0440"]) (named : name ≠ [])
      (path : destination.path.toList.splitOn '/' =
        ["", "persistent", "secrets", service, destination.category].map String.toList ++ [name])
  | publicInfo (group name : List Char) (grouped : validSharedPart group = true)
      (named : validSharedPart name = true)
      (destination : destination = publicDestination (String.ofList (group ++ '/' :: name)))

theorem component_chars {component : String} (h : validateComponent component = .ok ()) :
    component ≠ "" ∧ component.toList.all isComponentChar = true := by
  unfold validateComponent at h
  split at h
  next hc => exact hc
  next => cases h

theorem componentChar_ne {text : List Char} (h : text.all isComponentChar = true) {c : Char}
    (hc : isComponentChar c = false) : c ∉ text := by
  intro hmem
  have hchar := List.all_eq_true.mp h c hmem
  rw [hc] at hchar
  cases hchar

theorem destinationFront_toList (service category : String) : (destinationFront service category).toList =
    "/persistent/secrets/".toList ++ service.toList ++ "/".toList ++ category.toList ++ "/".toList := by
  unfold destinationFront
  simp only [String.toList_append]

theorem destinationFront_segments (service category : String) (name : List Char) :
    (destinationFront service category).toList ++ name = ['/'].intercalate
      (["", "persistent", "secrets", service, category].map String.toList ++ [name]) := by
  have hroot : "/persistent/secrets/".toList =
      ['/'] ++ ("persistent".toList ++ (['/'] ++ ("secrets".toList ++ ['/']))) := by decide
  have hslash : "/".toList = ['/'] := by decide
  have hempty : "".toList = [] := by decide
  rw [destinationFront_toList, hroot, hslash]
  simp only [List.map_cons, List.map_nil, hempty, List.cons_append, List.nil_append,
    List.intercalate_cons_cons, List.intercalate_singleton, List.append_assoc]

theorem validateDestination_declared {path : SecretPath} {service : String} {destination : Destination}
    (hservice : validateComponent service = .ok ())
    (h : validateDestination path service destination = .ok ()) : Declared service destination := by
  obtain ⟨_, hcategory, h⟩ := Checked.bind_ok h
  obtain ⟨_, _, h⟩ := Checked.bind_ok h
  obtain ⟨_, hmode, h⟩ := Checked.bind_ok h
  obtain ⟨_, _, h⟩ := Checked.bind_ok h
  obtain ⟨_, _, h⟩ := Checked.bind_ok h
  have hcategory := not_not.mp (Checked.refuseIf_ok hcategory)
  have hname := Checked.refuseIf_ok h
  unfold strip at hname
  split at hname
  next hfront =>
    rw [Option.getD_some] at hname
    generalize hrest : destination.path.toList.drop _ = name at hname
    have hpath := List.prefix_iff_eq_append.mp (List.isPrefixOf_iff_prefix.mp hfront)
    rw [hrest] at hpath
    refine .secret name hservice hcategory (not_not.mp (Checked.refuseIf_ok hmode))
      (fun hnil => hname (Or.inl hnil)) ?_
    have hslash : '/' ∉ destination.category.toList := by
      have hall : ∀ category ∈ ["setup", "service", "backup"], '/' ∉ category.toList := by decide
      exact hall _ hcategory
    have hservice' : '/' ∉ service.toList := componentChar_ne (component_chars hservice).2 (by decide)
    rw [← hpath, destinationFront_segments]
    apply List.splitOn_intercalate
    · intro text htext
      simp only [List.map_cons, List.map_nil, List.cons_append, List.nil_append, List.mem_cons,
        List.not_mem_nil, or_false] at htext
      rcases htext with rfl | rfl | rfl | rfl | rfl | rfl
      · decide
      · decide
      · decide
      · exact hservice'
      · exact hslash
      · exact fun hmem => hname (Or.inr hmem)
    · simp
  next => simp at hname

theorem validSharedPart_chars {part : List Char} (h : validSharedPart part = true) :
    part ≠ [] ∧ part.all isComponentChar = true := by
  simp only [validSharedPart, Bool.and_eq_true, decide_eq_true_eq] at h
  exact ⟨h.1.1, h.2⟩

theorem validSharedId_parts {id : String} (h : validSharedId id = true) :
    ∃ group name, id = String.ofList (group ++ '/' :: name) ∧ validSharedPart group = true ∧
      validSharedPart name = true := by
  simp only [validSharedId, Bool.and_eq_true, decide_eq_true_eq] at h
  obtain ⟨⟨hlength, hparts⟩, _⟩ := h
  obtain ⟨group, name, hsplit⟩ := List.length_eq_two.mp hlength
  rw [hsplit, List.all_cons, List.all_cons, List.all_nil, Bool.and_true, Bool.and_eq_true] at hparts
  refine ⟨group, name, ?_, hparts⟩
  apply String.toList_inj.mp
  have htext : ['/'].intercalate (id.toList.splitOn '/') = id.toList := List.intercalate_splitOn '/'
  rw [← htext, hsplit, String.toList_ofList]
  simp [List.intercalate]

theorem validatePublicDestination_declared {libs : SchemaLibraries} {path : SecretPath} (service : String)
    {leaf : SecretLeaf} (h : validatePublicDestination libs path leaf = .ok ()) :
    Declared service leaf.destination := by
  obtain ⟨id, _, h⟩ := Checked.bind_ok h
  obtain ⟨_, hid, h⟩ := Checked.bind_ok h
  obtain ⟨_, hdestination, _⟩ := Checked.bind_ok h
  have hvalid := Checked.refuseIf_ok hid
  obtain ⟨group, name, rfl, hgroup, hname⟩ := validSharedId_parts (by simpa using hvalid)
  exact .publicInfo group name hgroup hname (not_not.mp (Checked.refuseIf_ok hdestination))

theorem publicDestination_segments {group name : List Char} (hgroup : validSharedPart group = true)
    (hname : validSharedPart name = true) :
    (publicDestination (String.ofList (group ++ '/' :: name))).path.toList.splitOn '/' =
      ["", "persistent", "public-info", String.ofList group, String.ofList name].map String.toList := by
  have hroot : "/persistent/public-info/".toList =
      ['/'] ++ ("persistent".toList ++ (['/'] ++ ("public-info".toList ++ ['/']))) := by decide
  have hempty : "".toList = [] := by decide
  have htext : (publicDestination (String.ofList (group ++ '/' :: name))).path.toList =
      ['/'].intercalate ["".toList, "persistent".toList, "public-info".toList, group, name] := by
    unfold publicDestination
    simp only [String.toList_append, hroot, String.toList_ofList, hempty, List.intercalate_cons_cons,
      List.intercalate_singleton, List.append_assoc, List.nil_append, List.cons_append]
  rw [htext, List.splitOn_intercalate]
  · simp only [List.map_cons, List.map_nil, String.toList_ofList]
  · intro text htext
    simp only [List.mem_cons, List.not_mem_nil, or_false] at htext
    rcases htext with rfl | rfl | rfl | rfl | rfl
    · decide
    · decide
    · decide
    · exact componentChar_ne (validSharedPart_chars hgroup).2 (by decide)
    · exact componentChar_ne (validSharedPart_chars hname).2 (by decide)
  · simp

theorem parse_segments {path : String} {first : String} {names : List String}
    (h : path.toList.splitOn '/' = ("" :: first :: names).map String.toList) :
    PathText.parse path = ⟨true, (first :: names).filter fun name => name ≠ "" ∧ name ≠ "."⟩ := by
  have hempty : "".toList = [] := by decide
  have htext : ['/'].intercalate (path.toList.splitOn '/') = path.toList := List.intercalate_splitOn '/'
  rw [h] at htext
  simp only [List.map_cons, List.intercalate_cons_cons, hempty, List.nil_append, List.cons_append] at htext
  have habsolute : path.toList.head? = some '/' := by rw [← htext]; rfl
  have hnames : (path.toList.splitOn '/').map String.ofList = "" :: first :: names := by
    rw [h, List.map_map]
    simp [Function.comp_def]
  unfold PathText.parse
  rw [hnames, habsolute]
  simp

end NixSecrets.Inventory

namespace NixSecrets

def Expected.relative (spec : Expected) : List String :=
  spec.service :: spec.secretClass.directory ++ [spec.secret]

/-- What stands between the root directory and the service. -/
def SecretClass.rootName (secretClass : SecretClass) : String :=
  if secretClass = .publicInfo then "public-info" else "secrets"

theorem expectedFromDestination_ok {checks : Checks} {service : String} {destination : Destination}
    {spec : Expected} (h : expectedFromDestination checks service destination = .ok spec) :
    classOf destination.category = .ok spec.secretClass ∧
    destinationService spec.secretClass service (.parse destination.path) = .ok spec.service ∧
    (PathText.parse destination.path).parent = some (((rootPath spec.secretClass).join
      (.parse spec.service)).join ⟨false, spec.secretClass.directory⟩) ∧
    (PathText.parse destination.path).fileName = some spec.secret ∧
    validateName "secret" spec.secret = .ok () := by
  simp only [expectedFromDestination, except_bind_ok] at h
  obtain ⟨secretClass, hclass, place, hplace, h⟩ := h
  split at h
  next => cases h
  next hparent =>
    cases hfile : (PathText.parse destination.path).fileName with
    | none =>
      rw [hfile] at h
      cases h
    | some name =>
      rw [hfile] at h
      simp only [except_bind_ok] at h
      obtain ⟨secret, hsecret, _, hname, _, _, owner, _, _, _, group, _, mode, _, h⟩ := h
      cases hsecret
      have hspec : spec = ⟨place, secretClass, name, owner, group, mode⟩ := by
        split at h
        next =>
          split at h
          next => cases h
          next => exact (Except.ok.inj h).symm
        next =>
          obtain ⟨_, _, h⟩ := except_bind_ok.mp h
          exact (Except.ok.inj h).symm
      rw [hspec]
      exact ⟨hclass, hplace, not_not.mp hparent, rfl, hname⟩

end NixSecrets

namespace NixSecrets.Inventory

theorem parse_component {component : String} (h : validateComponent component = .ok ()) :
    PathText.parse component = ⟨false, [component]⟩ := by
  obtain ⟨hne, hchars⟩ := component_chars h
  have hslash : '/' ∉ component.toList := componentChar_ne hchars (by decide)
  have hdot : component ≠ "." := by
    rintro rfl
    exact absurd hchars (by decide)
  have hsplit : component.toList.splitOn '/' = [component.toList] := by
    have hback : (['/'].intercalate [component.toList]).splitOn '/' = [component.toList] :=
      List.splitOn_intercalate '/' (by simpa using hslash) (by simp)
    rwa [List.intercalate_singleton] at hback
  have hhead : component.toList.head? ≠ some '/' := fun hhead => hslash (List.mem_of_head? hhead)
  unfold PathText.parse
  rw [hsplit]
  simp [hne, hdot, hhead]

theorem classOf_declared {category : String} (h : category ∈ ["setup", "service", "backup"]) :
    ∃ secretClass, classOf category = .ok secretClass ∧ secretClass ≠ .publicInfo ∧
      secretClass.directory = [category] := by
  simp only [List.mem_cons, List.not_mem_nil, or_false] at h
  rcases h with rfl | rfl | rfl
  · exact ⟨.setup, rfl, by decide, rfl⟩
  · exact ⟨.service, rfl, by decide, rfl⟩
  · exact ⟨.backup, rfl, by decide, rfl⟩

theorem classOf_category {category : String} {secretClass : SecretClass}
    (hcategory : category ∈ ["setup", "service", "backup"]) (h : classOf category = .ok secretClass) :
    secretClass ≠ .publicInfo ∧ secretClass.directory = [category] := by
  obtain ⟨found, hfound, hsecret, hdirectory⟩ := classOf_declared hcategory
  rw [hfound] at h
  cases h
  exact ⟨hsecret, hdirectory⟩

theorem component_names {service category : String} (hservice : validateComponent service = .ok ())
    (hcategory : category ∈ ["setup", "service", "backup"]) :
    (service ≠ "" ∧ service ≠ ".") ∧ category ≠ "" ∧ category ≠ "." := by
  obtain ⟨hne, hchars⟩ := component_chars hservice
  refine ⟨⟨hne, ?_⟩, ?_⟩
  · rintro rfl
    exact absurd hchars (by decide)
  · have hall : ∀ category ∈ ["setup", "service", "backup"], category ≠ "" ∧ category ≠ "." := by decide
    exact hall category hcategory

theorem sharedPart_name {part : List Char} (h : validSharedPart part = true) :
    String.ofList part ≠ "" ∧ String.ofList part ≠ "." ∧ String.ofList part ≠ ".." := by
  obtain ⟨hne, hchars⟩ := validSharedPart_chars h
  have hdot : '.' ∉ part := componentChar_ne hchars (by decide)
  refine ⟨by simpa using hne, ?_, ?_⟩
  · intro heq
    have hpart : part = ['.'] := by simpa using congrArg String.toList heq
    simp [hpart] at hdot
  · intro heq
    have hpart : part = ['.', '.'] := by simpa using congrArg String.toList heq
    simp [hpart] at hdot

theorem publicPath_files {group name : List Char} (hgroup : validSharedPart group = true)
    (hname : validSharedPart name = true) :
    let path : PathText := ⟨true, ["persistent", "public-info", String.ofList group, String.ofList name]⟩
    path.parent.bind PathText.fileName = some (String.ofList group) ∧
      path.fileName = some (String.ofList name) := by
  obtain ⟨_, _, hgroupDots⟩ := sharedPart_name hgroup
  obtain ⟨_, _, hdots⟩ := sharedPart_name hname
  constructor
  · simp [PathText.parent, PathText.fileName, Option.filter, hgroupDots]
  · simp [PathText.fileName, Option.filter, hdots]

/-- A declared destination that resolves is the path of its relative place below the root. -/
theorem resolved_path {checks : Checks} {service : String} {destination : Destination} {spec : Expected}
    (h : Declared service destination)
    (hok : expectedFromDestination checks service destination = .ok spec) :
    destination.path.toList.splitOn '/' =
      (["", "persistent", spec.secretClass.rootName] ++ spec.relative).map String.toList := by
  obtain ⟨hclass, hplace, hparent, hfile, _⟩ := expectedFromDestination_ok hok
  cases h with
  | secret name hservice hcategory hmode hnamed hpath =>
    obtain ⟨hsecret, hdirectory⟩ := classOf_category hcategory hclass
    obtain ⟨hkept, hcategoryKept⟩ := component_names hservice hcategory
    have hsegments : destination.path.toList.splitOn '/' = ("" :: "persistent" :: ["secrets", service,
        destination.category, String.ofList name]).map String.toList := by simp [hpath]
    rw [destinationService, if_neg hsecret] at hplace
    have hserviceName : spec.service = service := (Except.ok.inj hplace).symm
    rw [hserviceName] at hparent
    rw [parse_segments hsegments] at hparent hfile
    rw [parse_component hservice, rootPath, if_neg hsecret, hdirectory] at hparent
    have hlast : String.ofList name ≠ "." := by
      intro hdot
      simp [hdot, hkept, hcategoryKept, PathText.parent, PathText.join] at hparent
    have hsecretName : spec.secret = String.ofList name := by
      have hne : String.ofList name ≠ "" := by simpa using hnamed
      have hfound : (PathText.fileName ⟨true, ["persistent", "secrets", service, destination.category,
          String.ofList name]⟩) = some spec.secret := by
        rw [← hfile]
        simp [hkept, hcategoryKept, hlast, hne]
      simp only [PathText.fileName, List.getLast?_cons_cons, List.getLast?_singleton] at hfound
      exact (Option.some.inj (Option.filter_eq_some_iff.mp hfound).1).symm
    rw [hsegments, Expected.relative, hdirectory, hserviceName, hsecretName, SecretClass.rootName,
      if_neg hsecret]
    rfl
  | publicInfo group name hgroup hname hdestination =>
    subst hdestination
    have hsegments := publicDestination_segments hgroup hname
    obtain ⟨hgroupNamed, hgroupDot⟩ := sharedPart_name hgroup
    obtain ⟨hnamed, hdot⟩ := sharedPart_name hname
    have hpublic : spec.secretClass = .publicInfo := (Except.ok.inj hclass).symm
    have hparse : PathText.parse (publicDestination (String.ofList (group ++ '/' :: name))).path =
        ⟨true, ["persistent", "public-info", String.ofList group, String.ofList name]⟩ := by
      rw [parse_segments hsegments]
      simp [hgroupNamed, hgroupDot, hnamed, hdot]
    obtain ⟨hgroupFile, hnameFile⟩ := publicPath_files hgroup hname
    rw [hparse, hpublic, destinationService, if_pos rfl, hgroupFile] at hplace
    rw [hparse, hnameFile] at hfile
    rw [hsegments, Expected.relative, hpublic, ← Except.ok.inj hplace, ← Option.some.inj hfile]
    rfl

theorem relative_length (spec : Expected) :
    spec.relative.length = if spec.secretClass = .publicInfo then 2 else 3 := by
  unfold Expected.relative
  cases spec.secretClass <;> rfl

/-- Declared destinations resolve to one place exactly if their paths are the same. -/
theorem resolved_relative_iff {checks checks' : Checks} {service service' : String}
    {destination destination' : Destination} {spec spec' : Expected}
    (h : Declared service destination) (h' : Declared service' destination')
    (hok : expectedFromDestination checks service destination = .ok spec)
    (hok' : expectedFromDestination checks' service' destination' = .ok spec') :
    spec.relative = spec'.relative ↔ destination.path = destination'.path := by
  have hpath := resolved_path h hok
  have hpath' := resolved_path h' hok'
  constructor
  · intro hsame
    have hlength := congrArg List.length hsame
    rw [relative_length, relative_length] at hlength
    have hroot : spec.secretClass.rootName = spec'.secretClass.rootName := by
      unfold SecretClass.rootName
      by_cases hpublic : spec.secretClass = .publicInfo
      · have hpublic' : spec'.secretClass = .publicInfo := by
          by_contra hnot
          simp [hpublic, hnot] at hlength
        rw [if_pos hpublic, if_pos hpublic']
      · have hpublic' : spec'.secretClass ≠ .publicInfo := by
          intro hyes
          simp [hpublic, hyes] at hlength
        rw [if_neg hpublic, if_neg hpublic']
    have htext : ['/'].intercalate (destination.path.toList.splitOn '/') = destination.path.toList :=
      List.intercalate_splitOn '/'
    have htext' : ['/'].intercalate (destination'.path.toList.splitOn '/') = destination'.path.toList :=
      List.intercalate_splitOn '/'
    apply String.toList_inj.mp
    rw [← htext, ← htext', hpath, hpath', hsame, hroot]
  · intro hsame
    rw [hsame, hpath'] at hpath
    have hnames := List.map_injective_iff.mpr (fun _ _ => String.toList_inj.mp) hpath
    have hdrop := congrArg (List.drop 3) hnames
    simpa using hdrop.symm

/-- The last name of the path, as it is written. -/
def destinationName (destination : Destination) : String :=
  String.ofList ((destination.path.toList.splitOn '/').getLastD [])

theorem resolved_name {checks : Checks} {service : String} {destination : Destination} {spec : Expected}
    (h : Declared service destination)
    (hok : expectedFromDestination checks service destination = .ok spec) :
    validateName "secret" (destinationName destination) = .ok () := by
  have hname := (expectedFromDestination_ok hok).2.2.2.2
  have hlast : destinationName destination = spec.secret := by
    rw [destinationName, resolved_path h hok, Expected.relative, ← List.append_assoc, List.map_append,
      List.map_singleton, List.getLastD_concat, String.ofList_toList]
  rw [hlast]
  exact hname

/-- A host that has every account. -/
def openChecks : Checks where
  user _ := .ok (some 0)
  group _ := .ok (some 0)
  decodeBase64 _ := some []
  sshKnownHosts _ _ _ := .ok ()
  namedSshKeys _ := .ok ()
  privateKey _ := some false
  publicKey _ := true

theorem validateName_ok {name : String} (h : validateName "secret" name = .ok ()) :
    name ≠ "" ∧ name ≠ "." ∧ name ≠ ".." := by
  unfold validateName at h
  split at h
  next hvalid =>
    refine ⟨?_, hvalid.2.2.2.1, hvalid.2.2.2.2⟩
    rintro rfl
    exact hvalid.1 rfl
  next => cases h

theorem parseMode_declared {mode : String} (h : mode ∈ ["0400", "0440"]) :
    ∃ value, parseMode mode = .ok value ∧ validateMode value = .ok () := by
  simp only [List.mem_cons, List.not_mem_nil, or_false] at h
  rcases h with rfl | rfl
  · exact ⟨0o400, by decide, by decide⟩
  · exact ⟨0o440, by decide, by decide⟩

theorem declared_resolves {service : String} {destination : Destination}
    (h : Declared service destination)
    (hname : validateName "secret" (destinationName destination) = .ok ()) :
    ∃ spec, expectedFromDestination openChecks service destination = .ok spec := by
  obtain ⟨hne, hdot, hdots⟩ := validateName_ok hname
  cases h with
  | secret name hservice hcategory hmode hnamed hpath =>
    have hlast : destinationName destination = String.ofList name := by
      rw [destinationName, hpath, List.getLastD_concat]
    rw [hlast] at hname hne hdot hdots
    obtain ⟨hkept, hcategoryKept⟩ := component_names hservice hcategory
    obtain ⟨secretClass, hclass, hsecret, hdirectory⟩ := classOf_declared hcategory
    obtain ⟨mode, hparsed, hallowed⟩ := parseMode_declared hmode
    have hsegments : destination.path.toList.splitOn '/' = ("" :: "persistent" :: ["secrets", service,
        destination.category, String.ofList name]).map String.toList := by simp [hpath]
    have hparse : PathText.parse destination.path =
        ⟨true, ["persistent", "secrets", service, destination.category, String.ofList name]⟩ := by
      rw [parse_segments hsegments]
      simp [hkept, hcategoryKept, hne, hdot]
    have hfile : PathText.fileName ⟨true, ["persistent", "secrets", service, destination.category,
        String.ofList name]⟩ = some (String.ofList name) := by
      simp [PathText.fileName, Option.filter, hdots]
    refine ⟨⟨service, secretClass, String.ofList name, 0, 0, mode⟩, ?_⟩
    simp [expectedFromDestination, hclass, destinationService, hsecret, hparse, hfile, rootPath,
      parse_component hservice, hdirectory, PathText.parent, PathText.join, hname, openChecks, found,
      hparsed, hallowed, bind, Except.bind, pure, Except.pure]
  | publicInfo group name hgroup hnamed hdestination =>
    subst hdestination
    have hsegments := publicDestination_segments hgroup hnamed
    obtain ⟨hgroupNamed, hgroupDot, hgroupDots⟩ := sharedPart_name hgroup
    have hlast : destinationName (publicDestination (String.ofList (group ++ '/' :: name))) =
        String.ofList name := by
      rw [destinationName, hsegments]
      simp
    rw [hlast] at hname hne hdot hdots
    have hparse : PathText.parse (publicDestination (String.ofList (group ++ '/' :: name))).path =
        ⟨true, ["persistent", "public-info", String.ofList group, String.ofList name]⟩ := by
      rw [parse_segments hsegments]
      simp [hgroupNamed, hgroupDot, hne, hdot]
    obtain ⟨hgroupFile, hnameFile⟩ := publicPath_files hgroup hnamed
    have hcomponent : validateComponent (String.ofList group) = .ok () := by
      simp [validateComponent, (validSharedPart_chars hgroup).1, (validSharedPart_chars hgroup).2]
    have hclass : classOf (publicDestination (String.ofList (group ++ '/' :: name))).category =
        .ok .publicInfo := rfl
    have hmode : parseMode (publicDestination (String.ofList (group ++ '/' :: name))).mode =
        .ok 0o644 := by
      show parseMode "0644" = .ok 0o644
      decide
    refine ⟨⟨String.ofList group, .publicInfo, String.ofList name, 0, 0, 0o644⟩, ?_⟩
    generalize publicDestination (String.ofList (group ++ '/' :: name)) = destination at hclass hmode hparse ⊢
    simp [expectedFromDestination, hclass, destinationService, hparse, hgroupFile, hnameFile, rootPath,
      parse_component hcomponent, SecretClass.directory, PathText.join, hname, openChecks,
      found, hmode, bind, Except.bind, pure, Except.pure]
    rfl

end NixSecrets.Inventory
