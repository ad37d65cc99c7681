import CareerCompass.RuleBase.Basic
/-!
# The standard rule table

Ten jobs of information technology, each with the courses that speak for it and how strongly.
The table is already in catalogue order, every weight is in `(0, 1]` and no job repeats a course,
so it needs no validation.

Main statement: `standard_jobs` (every job of the catalogue has rules).
-/

namespace CareerCompass

namespace RuleBase

/-- The standard table of rules. -/
def standard {α : Type} [Scalar α] : RuleBase α where
  table := [
    (.softwareEngineer, [
      (.softwareDevelopment, 0.9),
      (.algorithmsAndProgramming, 0.9),
      (.objectOrientedProgramming, 0.85),
      (.softwareTesting, 0.7),
      (.database, 0.65)
    ]),
    (.webDeveloper, [
      (.webProgramming, 0.95),
      (.softwareDevelopment, 0.75),
      (.database, 0.7)
    ]),
    (.mobileDeveloper, [
      (.mobileProgramming, 0.95),
      (.softwareDevelopment, 0.75),
      (.objectOrientedProgramming, 0.7)
    ]),
    (.dataAnalyst, [
      (.businessDataAnalytics, 0.9),
      (.descriptiveStatistics, 0.85),
      (.dataVisualization, 0.85),
      (.database, 0.7),
      (.quantitativeMethods, 0.7)
    ]),
    (.dataScientist, [
      (.machineLearning, 0.9),
      (.dataMining, 0.85),
      (.businessDataAnalytics, 0.75),
      (.descriptiveStatistics, 0.8),
      (.inferentialStatistics, 0.8),
      (.algorithmsAndProgramming, 0.75),
      (.dataVisualization, 0.7),
      (.discreteMathematics, 0.65)
    ]),
    (.securityAnalyst, [
      (.systemSecurity, 0.95),
      (.computerNetwork, 0.8),
      (.riskManagement, 0.8),
      (.operatingSystem, 0.6)
    ]),
    (.networkAdministrator, [
      (.computerNetwork, 0.9),
      (.operatingSystem, 0.85),
      (.systemSecurity, 0.6),
      (.serviceManagement, 0.6)
    ]),
    (.databaseEngineer, [
      (.database, 0.95),
      (.enterpriseApplications, 0.75),
      (.softwareDevelopment, 0.6),
      (.serviceManagement, 0.65),
      (.operatingSystem, 0.6)
    ]),
    (.businessAnalyst, [
      (.systemAnalysisDesign, 0.9),
      (.businessProcess, 0.85),
      (.enterpriseSystem, 0.7),
      (.dataVisualization, 0.6)
    ]),
    (.projectManager, [
      (.projectManagement, 0.95),
      (.leadership, 0.85),
      (.softwareDevelopment, 0.6),
      (.governance, 0.65)
    ])
  ]

theorem standard_jobs {α : Type} [Scalar α] : (standard : RuleBase α).jobs = Job.all := rfl

end RuleBase

end CareerCompass
