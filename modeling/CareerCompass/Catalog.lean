/-!
# The catalogue of courses and jobs

Twenty-eight courses and ten jobs, each with a display name. The catalogue order (the order of
`Course.all` and `Job.all`) is the tiebreak everywhere: rule tables are kept in job order, equal
scores and weights keep catalogue order, and asked courses are listed in it.

Main statements: `Course.all_nodup` and `Course.mem_all` (the list is the whole catalogue, once
each), and `Course.index_injective` (the index tells members apart); the same for jobs.
-/

namespace CareerCompass

/-- A course of the curriculum. -/
inductive Course where
  /-- Software Development. -/
  | softwareDevelopment
  /-- Algorithms and Programming. -/
  | algorithmsAndProgramming
  /-- Object Oriented Programming. -/
  | objectOrientedProgramming
  /-- Software Testing. -/
  | softwareTesting
  /-- Database. -/
  | database
  /-- Web Programming. -/
  | webProgramming
  /-- Information Retrieval. -/
  | informationRetrieval
  /-- Mobile Programming. -/
  | mobileProgramming
  /-- Business Data Analytics. -/
  | businessDataAnalytics
  /-- Descriptive Statistics. -/
  | descriptiveStatistics
  /-- Data Visualization and Analysis. -/
  | dataVisualization
  /-- Quantitative Methods of Business. -/
  | quantitativeMethods
  /-- Machine Learning. -/
  | machineLearning
  /-- Data Mining. -/
  | dataMining
  /-- Inferential Statistics. -/
  | inferentialStatistics
  /-- Discrete Mathematics. -/
  | discreteMathematics
  /-- Information System Security. -/
  | systemSecurity
  /-- Computer Network. -/
  | computerNetwork
  /-- Information Technology Risk Management. -/
  | riskManagement
  /-- Operating System. -/
  | operatingSystem
  /-- Information Technology Service Management. -/
  | serviceManagement
  /-- Enterprise Application Development. -/
  | enterpriseApplications
  /-- Analysis and Design of Information System. -/
  | systemAnalysisDesign
  /-- Business Function and Process. -/
  | businessProcess
  /-- Enterprise System. -/
  | enterpriseSystem
  /-- Information Technology Project Management. -/
  | projectManagement
  /-- Leadership and Organizational Management. -/
  | leadership
  /-- Information Technology Governance. -/
  | governance
deriving DecidableEq, Repr, Inhabited

namespace Course

/-- Every course, in catalogue order. -/
def all : List Course :=
  [.softwareDevelopment, .algorithmsAndProgramming, .objectOrientedProgramming, .softwareTesting,
   .database, .webProgramming, .informationRetrieval, .mobileProgramming, .businessDataAnalytics,
   .descriptiveStatistics, .dataVisualization, .quantitativeMethods, .machineLearning,
   .dataMining, .inferentialStatistics, .discreteMathematics, .systemSecurity, .computerNetwork,
   .riskManagement, .operatingSystem, .serviceManagement, .enterpriseApplications,
   .systemAnalysisDesign, .businessProcess, .enterpriseSystem, .projectManagement, .leadership,
   .governance]

/-- The position of a course in the catalogue, from zero. -/
def index : Course → Nat
  | .softwareDevelopment => 0
  | .algorithmsAndProgramming => 1
  | .objectOrientedProgramming => 2
  | .softwareTesting => 3
  | .database => 4
  | .webProgramming => 5
  | .informationRetrieval => 6
  | .mobileProgramming => 7
  | .businessDataAnalytics => 8
  | .descriptiveStatistics => 9
  | .dataVisualization => 10
  | .quantitativeMethods => 11
  | .machineLearning => 12
  | .dataMining => 13
  | .inferentialStatistics => 14
  | .discreteMathematics => 15
  | .systemSecurity => 16
  | .computerNetwork => 17
  | .riskManagement => 18
  | .operatingSystem => 19
  | .serviceManagement => 20
  | .enterpriseApplications => 21
  | .systemAnalysisDesign => 22
  | .businessProcess => 23
  | .enterpriseSystem => 24
  | .projectManagement => 25
  | .leadership => 26
  | .governance => 27

/-- The display name of a course. -/
def name : Course → String
  | .softwareDevelopment => "Software Development"
  | .algorithmsAndProgramming => "Algorithms and Programming"
  | .objectOrientedProgramming => "Object Oriented Programming"
  | .softwareTesting => "Software Testing"
  | .database => "Database"
  | .webProgramming => "Web Programming"
  | .informationRetrieval => "Information Retrieval"
  | .mobileProgramming => "Mobile Programming"
  | .businessDataAnalytics => "Business Data Analytics"
  | .descriptiveStatistics => "Descriptive Statistics"
  | .dataVisualization => "Data Visualization and Analysis"
  | .quantitativeMethods => "Quantitative Methods of Business"
  | .machineLearning => "Machine Learning"
  | .dataMining => "Data Mining"
  | .inferentialStatistics => "Inferential Statistics"
  | .discreteMathematics => "Discrete Mathematics"
  | .systemSecurity => "Information System Security"
  | .computerNetwork => "Computer Network"
  | .riskManagement => "Information Technology Risk Management"
  | .operatingSystem => "Operating System"
  | .serviceManagement => "Information Technology Service Management"
  | .enterpriseApplications => "Enterprise Application Development"
  | .systemAnalysisDesign => "Analysis and Design of Information System"
  | .businessProcess => "Business Function and Process"
  | .enterpriseSystem => "Enterprise System"
  | .projectManagement => "Information Technology Project Management"
  | .leadership => "Leadership and Organizational Management"
  | .governance => "Information Technology Governance"

/-- The course whose display name is exactly this text. -/
def ofName? (text : String) : Option Course :=
  all.find? (·.name == text)

/-- Catalogue order. -/
instance : LT Course := ⟨fun a b => a.index < b.index⟩

instance (a b : Course) : Decidable (a < b) := inferInstanceAs (Decidable (a.index < b.index))

instance : Ord Course := ⟨fun a b => compare a.index b.index⟩

/-- The catalogue lists each member at its index. -/
theorem getElem?_all_index (x : Course) : all[x.index]? = some x := by
  cases x <;> rfl

theorem index_injective {a b : Course} (h : a.index = b.index) : a = b := by
  have ha := getElem?_all_index a
  rw [h, getElem?_all_index b] at ha
  exact (Option.some.inj ha).symm

theorem mem_all (x : Course) : x ∈ all := by
  cases x <;> simp [all]

theorem all_nodup : all.Nodup := by
  decide

/-- The catalogue lists its members in catalogue order. -/
theorem all_sorted : all.Pairwise fun a b => a.index < b.index := by
  decide

end Course

/-- A job the advisor can recommend. -/
inductive Job where
  /-- Software Engineer. -/
  | softwareEngineer
  /-- Web Developer. -/
  | webDeveloper
  /-- Mobile Developer. -/
  | mobileDeveloper
  /-- Data Analyst. -/
  | dataAnalyst
  /-- Data Scientist. -/
  | dataScientist
  /-- Cybersecurity Analyst. -/
  | securityAnalyst
  /-- System/Network Administrator. -/
  | networkAdministrator
  /-- Database Engineer. -/
  | databaseEngineer
  /-- Business Analyst (IT). -/
  | businessAnalyst
  /-- IT Project Manager. -/
  | projectManager
deriving DecidableEq, Repr, Inhabited

namespace Job

/-- Every job, in catalogue order. -/
def all : List Job :=
  [.softwareEngineer, .webDeveloper, .mobileDeveloper, .dataAnalyst, .dataScientist,
   .securityAnalyst, .networkAdministrator, .databaseEngineer, .businessAnalyst, .projectManager]

/-- The position of a job in the catalogue, from zero. -/
def index : Job → Nat
  | .softwareEngineer => 0
  | .webDeveloper => 1
  | .mobileDeveloper => 2
  | .dataAnalyst => 3
  | .dataScientist => 4
  | .securityAnalyst => 5
  | .networkAdministrator => 6
  | .databaseEngineer => 7
  | .businessAnalyst => 8
  | .projectManager => 9

/-- The display name of a job. -/
def name : Job → String
  | .softwareEngineer => "Software Engineer"
  | .webDeveloper => "Web Developer"
  | .mobileDeveloper => "Mobile Developer"
  | .dataAnalyst => "Data Analyst"
  | .dataScientist => "Data Scientist"
  | .securityAnalyst => "Cybersecurity Analyst"
  | .networkAdministrator => "System/Network Administrator"
  | .databaseEngineer => "Database Engineer"
  | .businessAnalyst => "Business Analyst (IT)"
  | .projectManager => "IT Project Manager"

/-- The job whose display name is exactly this text. -/
def ofName? (text : String) : Option Job :=
  all.find? (·.name == text)

/-- Catalogue order. -/
instance : LT Job := ⟨fun a b => a.index < b.index⟩

instance (a b : Job) : Decidable (a < b) := inferInstanceAs (Decidable (a.index < b.index))

instance : Ord Job := ⟨fun a b => compare a.index b.index⟩

/-- The catalogue lists each member at its index. -/
theorem getElem?_all_index (x : Job) : all[x.index]? = some x := by
  cases x <;> rfl

theorem index_injective {a b : Job} (h : a.index = b.index) : a = b := by
  have ha := getElem?_all_index a
  rw [h, getElem?_all_index b] at ha
  exact (Option.some.inj ha).symm

theorem mem_all (x : Job) : x ∈ all := by
  cases x <;> simp [all]

theorem all_nodup : all.Nodup := by
  decide

end Job

end CareerCompass
